import InstallerAnalysis.Proofs.Occurrences
import InstallerAnalysis.Search.Cycle
import Mathlib.Data.Fintype.Card
import Mathlib.Data.Set.Finite.Basic
import Mathlib.Logic.Relation
import Mathlib.Order.WellFounded

/-!
# The order of searches is a topological order

After the searches of `ran` have run, the count of a search is the number of its relations whose
parent has not run, and the heap holds exactly the searches that have not run and whose count is
zero (`Tracks`, kept from round to round by `Reached.run_tracks`). This survives the relations of a
search that runs one by one, whatever their order and however many lead to the same child
(`Shows.foldl_lower`). So a search that runs has all its parents behind it, and a run that gets
stuck leaves searches each of which has a parent among them, which in a finite view is a cycle
(`exists_transGen_self`).

`order_topological` puts this together for the view of a section.
-/

namespace InstallerAnalysis.Search

/-- A row of the section orders the search `child` after the search `parent`. -/
def Ordered (c : Section) (parent child : String) : Prop :=
  ∃ s ∈ c.rowsOf Schema.SearchRelation.definition.name,
    s.id.map (·.id) = some child ∧ s.get? Schema.SearchRelation.parent = some parent

/-- A row of the section declares the search, or orders it before or after another one. -/
def Mentioned (c : Section) (id : String) : Prop :=
  (∃ s ∈ c.rowsOf Schema.Search.definition.name, s.id.map (·.id) = some id)
    ∨ ∃ other, Ordered c id other ∨ Ordered c other id

theorem Relation.ofSymbol?_eq_some {s : Symbol} {r : Relation} (h : ofSymbol? s = some r) :
    s.id.map (·.id) = some r.child ∧ s.get? Schema.SearchRelation.parent = some r.parent := by
  unfold ofSymbol? at h
  rcases hi : s.id with _ | i <;> rw [hi] at h
  · simp at h
  · rcases hp : s.get? Schema.SearchRelation.parent with _ | p <;> rw [hp] at h
    · simp at h
    · simp only [Option.pure_def, Option.bind_eq_bind, Option.bind_some, Option.some.injEq] at h
      subst h
      exact ⟨rfl, rfl⟩

theorem Relation.exists_ofSymbol? {s : Symbol} {parent child : String}
    (hc : s.id.map (·.id) = some child)
    (hp : s.get? Schema.SearchRelation.parent = some parent) :
    ∃ r, ofSymbol? s = some r ∧ r.parent = parent ∧ r.child = child := by
  obtain ⟨i, hi, rfl⟩ := Option.map_eq_some_iff.1 hc
  unfold ofSymbol?
  rw [hi, hp]
  exact ⟨_, rfl, rfl, rfl⟩

theorem Heap.pop?_cases {h rest : Heap} {place : Nat} (hpop : h.pop? = some (place, rest)) :
    place ∈ h.places ∧ (∀ other ∈ h.places, place ≤ other)
      ∧ rest.places = h.places.erase place := by
  obtain ⟨least, hleast, hrest⟩ := Option.map_eq_some_iff.1 hpop
  cases hrest
  obtain ⟨hmem, hle⟩ := List.min?_eq_some_iff.1 hleast
  exact ⟨hmem, hle, rfl⟩

namespace View

variable (v : View)

def Edge (parent child : String) : Prop :=
  ∃ r ∈ v.relations, r.parent = parent ∧ r.child = child

/-- What holds of the view of a section: every search is in it once, and so are those that the
relations mention. -/
structure Closed : Prop where
  nodup : v.searches.Nodup
  parent_mem : ∀ r ∈ v.relations, r.parent ∈ v.searches
  child_mem : ∀ r ∈ v.relations, r.child ∈ v.searches

theorem ofSection_edge {c : Section} {parent child : String} :
    (ofSection c).Edge parent child ↔ Ordered c parent child := by
  unfold Edge Ordered
  simp only [ofSection, List.mem_filterMap]
  constructor
  · rintro ⟨r, ⟨s, hs, hr⟩, rfl, rfl⟩
    exact ⟨s, hs, Relation.ofSymbol?_eq_some hr⟩
  · rintro ⟨s, hs, hc, hp⟩
    obtain ⟨r, hr, rfl, rfl⟩ := Relation.exists_ofSymbol? hc hp
    exact ⟨r, ⟨s, hs, hr⟩, rfl, rfl⟩

theorem mem_ofSection_searches {c : Section} {id : String} :
    id ∈ (ofSection c).searches ↔ Mentioned c id := by
  have hedge : (∃ other, Ordered c id other ∨ Ordered c other id) ↔
      ∃ r ∈ (ofSection c).relations, id = r.parent ∨ id = r.child := by
    simp only [← ofSection_edge]
    constructor
    · rintro ⟨other, ⟨r, hr, rfl, rfl⟩ | ⟨r, hr, rfl, rfl⟩⟩
      · exact ⟨r, hr, .inl rfl⟩
      · exact ⟨r, hr, .inr rfl⟩
    · rintro ⟨r, hr, rfl | rfl⟩
      · exact ⟨_, .inl ⟨r, hr, rfl, rfl⟩⟩
      · exact ⟨_, .inr ⟨r, hr, rfl, rfl⟩⟩
  unfold Mentioned
  rw [hedge]
  simp only [ofSection, List.mem_eraseDups, List.mem_append, List.mem_flatMap, List.mem_cons,
    List.not_mem_nil, or_false]
  rw [List.mem_filterMap]

theorem ofSection_closed (c : Section) : (ofSection c).Closed where
  nodup := nodup_eraseDups _
  parent_mem r hr := mem_ofSection_searches.2
    (.inr ⟨r.child, .inl (ofSection_edge.1 ⟨r, hr, rfl, rfl⟩)⟩)
  child_mem r hr := mem_ofSection_searches.2
    (.inr ⟨r.parent, .inr (ofSection_edge.1 ⟨r, hr, rfl, rfl⟩)⟩)

/-! ## Counts while searches run -/

/-- How many relations have `child` come after `parent`. -/
def relationCount (parent child : String) : Nat :=
  v.relations.countP fun r => r.parent = parent && r.child = child

/-- The relations that still hold `id` back once `ran` have run. -/
def held (ran : List String) (id : String) : Nat :=
  v.relations.countP fun r => r.child = id && !ran.contains r.parent

/-- A search that has not run, all of whose parents have. -/
def Free (ran : List String) (id : String) : Prop :=
  id ∈ v.searches ∧ id ∉ ran ∧ ∀ r ∈ v.relations, r.child = id → r.parent ∈ ran

/-- The agenda has the given counts, and its heap holds exactly the searches that wait and whose
count is zero, each of them once. -/
structure Shows (count : String → Nat) (waits : String → Prop) (a : Agenda) : Prop where
  counts : a.counts = v.searches.map count
  nodup : a.ready.places.Nodup
  ready : ∀ place, place ∈ a.ready.places
    ↔ ∃ id, v.searches[place]? = some id ∧ waits id ∧ count id = 0

/-- The agenda once `ran` have run. -/
def Tracks (ran : List String) (a : Agenda) : Prop :=
  v.Shows (v.held ran) (· ∉ ran) a

variable {v} {ran : List String} {id : String} {a : Agenda}

theorem held_eq_zero_iff :
    v.held ran id = 0 ↔ ∀ r ∈ v.relations, r.child = id → r.parent ∈ ran := by
  simp [held, List.countP_eq_zero]

theorem held_eq_add (hid : id ∉ ran) (x : String) :
    v.held ran x = v.relationCount id x + v.held (ran ++ [id]) x := by
  unfold held relationCount
  induction v.relations with
  | nil => rfl
  | cons r rs ih =>
    simp only [List.countP_cons, ih]
    by_cases hc : r.child = x
    · by_cases hp : r.parent = id
      · simp [hc, hp, hid]
        omega
      · simp [hc, hp]
        omega
    · simp [hc]

theorem count_successors (id x : String) : (v.successors id).count x = v.relationCount id x := by
  unfold successors relationCount
  rw [List.count_reverse, List.count, List.countP_map, List.countP_filter]
  refine List.countP_congr fun r _ => ?_
  simp [and_comm]

/-- Before anything has run, the heap has been filled from the counts. -/
theorem tracks_agenda : v.Tracks [] v.agenda where
  counts := by simp [agenda, held]
  nodup := List.nodup_range.filter _
  ready place := by
    have hheld : ∀ id, v.held [] id = v.relations.countP (·.child = id) := by simp [held]
    simp only [agenda, List.mem_filter, List.mem_range, List.length_map, decide_eq_true_eq,
      List.getElem?_map, Option.map_eq_some_iff, hheld]
    constructor
    · rintro ⟨-, id, hid, hzero⟩
      exact ⟨id, hid, List.not_mem_nil, hzero⟩
    · rintro ⟨id, hid, -, hzero⟩
      exact ⟨(List.getElem?_eq_some_iff.1 hid).1, id, hid, hzero⟩

/-! ### One relation -/

/-- Takes one off the count of `child`; nothing comes of it if the count is zero already, or if
there is none. -/
def lower? (v : View) (a : Agenda) (child : String) : Option Agenda :=
  match a.counts[v.searches.idxOf child]? with
  | some (_ + 1) => some (v.lower a child)
  | _ => none

section Lower

variable {count : String → Nat} {waits : String → Prop} {child : String}

theorem idxOf_eq_iff (hv : v.searches.Nodup) (hchild : child ∈ v.searches) {place : Nat}
    {x : String}
    (hx : v.searches[place]? = some x) : v.searches.idxOf child = place ↔ x = child := by
  have hself : v.searches[v.searches.idxOf child]? = some child := List.getElem?_idxOf hchild
  constructor
  · rintro rfl
    exact Option.some.inj (hx.symm.trans hself)
  · rintro rfl
    exact (List.getElem?_inj (List.getElem?_eq_some_iff.1 hself).1 hv).1 (hself.trans hx.symm)

theorem Shows.counts_lower (hv : v.searches.Nodup) (h : v.Shows count waits a)
    (hchild : child ∈ v.searches) : (v.lower a child).counts
      = v.searches.map fun x => count x - if x = child then 1 else 0 := by
  refine List.ext_getElem? fun place => ?_
  rw [lower, h.counts, List.getElem?_modify, List.getElem?_map, List.getElem?_map]
  rcases hx : v.searches[place]? with _ | x
  · rfl
  · simp only [Option.map_some, idxOf_eq_iff hv hchild hx, Option.map_eq_map]
    split_ifs <;> rfl

theorem Shows.ready_lower (hv : v.searches.Nodup) (h : v.Shows count waits a)
    (hchild : child ∈ v.searches) (hpos : 0 < count child) :
    (v.lower a child).ready.places = if count child = 1
      then v.searches.idxOf child :: a.ready.places else a.ready.places := by
  have hcount : (v.lower a child).counts[v.searches.idxOf child]? = some (count child - 1) := by
    rw [h.counts_lower hv hchild, List.getElem?_map, List.getElem?_idxOf hchild]
    simp
  have hone : some (count child - 1) = some 0 ↔ count child = 1 := by
    rw [Option.some.injEq]
    omega
  have hpush : (v.lower a child).ready
      = if (v.lower a child).counts[v.searches.idxOf child]? = some 0 then
          a.ready.push (v.searches.idxOf child)
        else a.ready := rfl
  rw [hpush, hcount]
  simp only [hone]
  split_ifs <;> rfl

theorem Shows.lower (hv : v.searches.Nodup) (h : v.Shows count waits a)
    (hchild : child ∈ v.searches) (hwaits : waits child) (hpos : 0 < count child) :
    v.Shows (fun x => count x - if x = child then 1 else 0) waits (v.lower a child) := by
  have hplace : v.searches[v.searches.idxOf child]? = some child := List.getElem?_idxOf hchild
  have hnot : v.searches.idxOf child ∉ a.ready.places := by
    rw [h.ready, hplace]
    rintro ⟨x, hx, -, hzero⟩
    cases hx
    omega
  have hready := h.ready_lower hv hchild hpos
  refine ⟨h.counts_lower hv hchild, ?_, fun place => ?_⟩
  · rw [hready]
    split_ifs
    · exact List.nodup_cons.2 ⟨hnot, h.nodup⟩
    · exact h.nodup
  · rcases hx : v.searches[place]? with _ | x
    · have hout : place ∉ a.ready.places := by simp [h.ready, hx]
      have hne : place ≠ v.searches.idxOf child := by
        rintro rfl
        simp [hplace] at hx
      rw [hready]
      split_ifs <;> simp [hout, hne]
    · have hsame := idxOf_eq_iff hv hchild hx
      have hold : place ∈ a.ready.places ↔ waits x ∧ count x = 0 := by simp [h.ready, hx]
      by_cases hxc : x = child
      · subst hxc
        obtain rfl := hsame.2 rfl
        rw [hready]
        split_ifs with hone
        · simp [hwaits, hone]
        · simp [hwaits, hnot]
          omega
      · have hne : place ≠ v.searches.idxOf child := fun heq => hxc (hsame.1 heq.symm)
        rw [hready]
        split_ifs <;> simp [hold, hne, hxc]

theorem Shows.lower?_eq (h : v.Shows count waits a) (hchild : child ∈ v.searches)
    (hpos : 0 < count child) : v.lower? a child = some (v.lower a child) := by
  obtain ⟨n, hn⟩ := Nat.exists_eq_add_one_of_ne_zero hpos.ne'
  rw [lower?, h.counts, List.getElem?_map, List.getElem?_idxOf hchild, Option.map_some, hn]

/-- Counts that are at least the number of times they are lowered stay legal all the way. -/
theorem Shows.foldl_lower (hv : v.searches.Nodup) : ∀ (children : List String) {a : Agenda}
    {count : String → Nat}, v.Shows count waits a →
    (∀ x ∈ children, x ∈ v.searches ∧ waits x ∧ children.count x ≤ count x) →
    children.foldlM v.lower? a = some (children.foldl v.lower a)
      ∧ v.Shows (fun x => count x - children.count x) waits (children.foldl v.lower a)
  | [], a, count, h, _ => ⟨rfl, by simpa using h⟩
  | child :: children, a, count, h, hall => by
    obtain ⟨hchild, hwaits, hcount⟩ := hall child List.mem_cons_self
    rw [List.count_cons_self] at hcount
    have hpos : 0 < count child := by omega
    have hrest : ∀ x ∈ children, x ∈ v.searches ∧ waits x
        ∧ children.count x ≤ count x - if x = child then 1 else 0 := by
      intro x hx
      obtain ⟨hmem, hx, hle⟩ := hall x (List.mem_cons_of_mem _ hx)
      refine ⟨hmem, hx, ?_⟩
      rw [List.count_cons] at hle
      split_ifs with hxc
      · simp [hxc] at hle ⊢
        omega
      · omega
    obtain ⟨hfold, hshows⟩ :=
      foldl_lower hv children (h.lower hv hchild hwaits hpos) hrest
    refine ⟨?_, ?_⟩
    · rw [List.foldlM_cons, h.lower?_eq hchild hpos, Option.bind_eq_bind, Option.bind_some, hfold,
        List.foldl_cons]
    · have hcounts : (fun x => count x - (if x = child then 1 else 0) - children.count x)
          = fun x => count x - (child :: children).count x := by
        funext x
        rw [List.count_cons, Nat.sub_sub]
        by_cases hxc : x = child
        · simp [hxc, Nat.add_comm]
        · simp [hxc, Ne.symm hxc]
      rwa [List.foldl_cons, ← hcounts]

end Lower

/-! ## Runs -/

/-- Each search of the list was free when those before it had run. -/
inductive Run (v : View) : List String → Prop
  | nil : Run v []
  | snoc {ran : List String} {id : String} : Run v ran → v.Free ran id → Run v (ran ++ [id])

theorem Run.nodup (h : v.Run ran) : ran.Nodup := by
  induction h with
  | nil => exact List.nodup_nil
  | snoc _ hfree ih =>
    rw [List.nodup_append]
    refine ⟨ih, List.nodup_singleton _, ?_⟩
    intro a ha b hb hab
    rw [List.mem_singleton] at hb
    exact hfree.2.1 (hb ▸ hab ▸ ha)

theorem Run.mem_searches (h : v.Run ran) : ∀ x ∈ ran, x ∈ v.searches := by
  induction h with
  | nil => simp
  | snoc _ hfree ih =>
    intro x hx
    rcases List.mem_append.1 hx with hx | hx
    · exact ih x hx
    · rw [List.mem_singleton.1 hx]
      exact hfree.1

/-- The parent of a search that has run has run before it. -/
theorem Run.parent_before (h : v.Run ran) {r : Relation} (hr : r ∈ v.relations)
    (hc : r.child ∈ ran) : [r.parent, r.child].Sublist ran := by
  induction h with
  | nil => simp at hc
  | @snoc ran id _ hfree ih =>
    by_cases hold : r.child ∈ ran
    · exact (ih hold).trans (List.sublist_append_left _ _)
    · have hlast : r.child = id := by simpa [hold] using hc
      have hp := List.singleton_sublist.2 (hfree.2.2 r hr hlast)
      rw [hlast]
      exact hp.append (List.Sublist.refl [id])

/-- A child of a search that runs has not run, and is another one. -/
theorem Free.child_waits (hrun : v.Run ran) (hfree : v.Free ran id) {r : Relation}
    (hr : r ∈ v.relations) (hp : r.parent = id) : r.child ∉ ran ∧ r.child ≠ id := by
  refine ⟨fun hc => ?_, fun hc => hfree.2.1 (hp ▸ hfree.2.2 r hr hc)⟩
  have hsub := hrun.parent_before hr hc
  exact hfree.2.1 (hp ▸ hsub.subset (by simp))

/-! ## Rounds -/

/-- The agenda that is left once `ran` have run, one in each round. -/
inductive Reached (v : View) : List String → Agenda → Prop
  | start : Reached v [] v.agenda
  | round {ran : List String} {a next : Agenda} {id : String} : Reached v ran a →
    v.round? a = some (id, next) → Reached v (ran ++ [id]) next

theorem round?_cases {next : Agenda} (h : v.round? a = some (id, next)) :
    ∃ place ready, a.ready.pop? = some (place, ready) ∧ v.searches[place]? = some id
      ∧ next = (v.successors id).foldl v.lower { a with ready := ready } := by
  simp only [round?, Option.bind_eq_bind, Option.bind_eq_some_iff] at h
  obtain ⟨⟨place, ready⟩, hpop, id', hid, hnext⟩ := h
  cases hnext
  exact ⟨place, ready, hpop, hid, rfl⟩

theorem Tracks.mem_ready_iff (h : v.Tracks ran a) {place : Nat} {id : String}
    (hid : v.searches[place]? = some id) : place ∈ a.ready.places ↔ v.Free ran id := by
  rw [h.ready, hid]
  simp [held_eq_zero_iff, Free, List.mem_of_getElem? hid]

/-- What is taken out of the heap is a search that is free, and the first one. -/
theorem Tracks.pop (hv : v.searches.Nodup) (h : v.Tracks ran a) {place : Nat} {ready : Heap}
    (hpop : a.ready.pop? = some (place, ready)) (hid : v.searches[place]? = some id) :
    v.Free ran id ∧ (∀ other, v.Free ran other → v.searches.idxOf id ≤ v.searches.idxOf other)
      ∧ v.Shows (v.held ran) (· ∉ ran ++ [id]) { a with ready := ready } := by
  obtain ⟨hmem, hleast, hrest⟩ := Heap.pop?_cases hpop
  have hidmem : id ∈ v.searches := List.mem_of_getElem? hid
  have hplace : v.searches.idxOf id = place := (idxOf_eq_iff hv hidmem hid).2 rfl
  refine ⟨(h.mem_ready_iff hid).1 hmem, fun other hother => ?_, ?_⟩
  · rw [hplace]
    exact hleast _ ((h.mem_ready_iff (List.getElem?_idxOf hother.1)).2 hother)
  · refine ⟨h.counts, hrest ▸ h.nodup.erase place, fun other => ?_⟩
    rw [hrest, h.nodup.mem_erase_iff, h.ready]
    constructor
    · rintro ⟨hne, x, hx, hran, hzero⟩
      have hxid : x ≠ id := fun heq => hne ((hplace.symm.trans
        ((idxOf_eq_iff hv hidmem hx).2 heq)).symm)
      exact ⟨x, hx, by simp [hran, hxid], hzero⟩
    · rintro ⟨x, hx, hran, hzero⟩
      simp only [List.mem_append, List.mem_singleton, not_or] at hran
      refine ⟨?_, x, hx, hran.1, hzero⟩
      rintro rfl
      exact hran.2 (Option.some.inj (hx.symm.trans hid))

/-- When a search runs, its relations take their children's counts down one by one, none of these
counts is zero before, and the heap then holds what is free afterwards. -/
theorem Free.counts_down (hv : v.Closed) (hrun : v.Run ran) (hfree : v.Free ran id)
    (h : v.Shows (v.held ran) (· ∉ ran ++ [id]) a) :
    (v.successors id).foldlM v.lower? a = some ((v.successors id).foldl v.lower a)
      ∧ v.Tracks (ran ++ [id]) ((v.successors id).foldl v.lower a) := by
  have hchildren : ∀ x ∈ v.successors id, x ∈ v.searches ∧ x ∉ ran ++ [id]
      ∧ (v.successors id).count x ≤ v.held ran x := by
    intro x hx
    simp only [successors, List.mem_reverse, List.mem_map, List.mem_filter,
      decide_eq_true_eq] at hx
    obtain ⟨r, ⟨hr, hp⟩, rfl⟩ := hx
    refine ⟨hv.child_mem r hr, by simpa using hfree.child_waits hrun hr hp, ?_⟩
    rw [count_successors, held_eq_add hfree.2.1]
    exact Nat.le_add_right _ _
  obtain ⟨hfold, hshows⟩ := Shows.foldl_lower hv.nodup _ h hchildren
  have hheld : (fun x => v.held ran x - (v.successors id).count x) = v.held (ran ++ [id]) := by
    funext x
    rw [count_successors, held_eq_add hfree.2.1, Nat.add_sub_cancel_left]
  rw [hheld] at hshows
  exact ⟨hfold, hshows⟩

theorem Reached.run_tracks (hv : v.Closed) (h : v.Reached ran a) : v.Run ran ∧ v.Tracks ran a := by
  induction h with
  | start => exact ⟨.nil, tracks_agenda⟩
  | round _ hround ih =>
    obtain ⟨place, ready, hpop, hid, rfl⟩ := round?_cases hround
    obtain ⟨hfree, -, hshows⟩ := ih.2.pop hv.nodup hpop hid
    exact ⟨ih.1.snoc hfree, (hfree.counts_down hv ih.1 hshows).2⟩

/-- A run stops for want of rounds or of a search in the heap. -/
theorem runFrom_reached : ∀ (rounds : Nat) {ran : List String} {a : Agenda}, v.Reached ran a →
    ∃ last, v.Reached (ran ++ v.runFrom rounds a) last
      ∧ ((v.runFrom rounds a).length = rounds ∨ v.round? last = none)
  | 0, ran, a, h => ⟨a, by simpa [runFrom] using h, .inl rfl⟩
  | rounds + 1, ran, a, h => by
    rw [runFrom]
    rcases hround : v.round? a with _ | ⟨id, next⟩
    · exact ⟨a, by simpa using h, .inr hround⟩
    · obtain ⟨last, hlast, hstop⟩ := runFrom_reached rounds (h.round hround)
      refine ⟨last, by simpa using hlast, ?_⟩
      simpa using hstop

/-- Where the heap is empty, a search that has not run has a parent that has not run. -/
theorem Tracks.stuck (h : v.Tracks ran a) (hround : v.round? a = none) {x : String}
    (hx : x ∈ v.searches) (hran : x ∉ ran) : ∃ r ∈ v.relations, r.child = x ∧ r.parent ∉ ran := by
  have hempty : a.ready.places = [] := by
    rcases hpop : a.ready.pop? with _ | ⟨place, ready⟩
    · simpa [Heap.pop?] using hpop
    · -- what the heap holds are places of the view
      obtain ⟨id, hid, -⟩ := (h.ready place).1 (Heap.pop?_cases hpop).1
      simp [round?, hpop, hid] at hround
  have hnot := (h.mem_ready_iff (List.getElem?_idxOf hx)).not.1 (by simp [hempty])
  by_contra hno
  push Not at hno
  exact hnot ⟨hx, hran, hno⟩

theorem runnable_run (hv : v.Closed) : v.Run v.runnable := by
  obtain ⟨last, hlast, -⟩ := runFrom_reached v.searches.length (.start : v.Reached [] _)
  exact (hlast.run_tracks hv).1

theorem runnable_stuck (hv : v.Closed) {x : String} (hx : x ∈ v.searches) (hran : x ∉ v.runnable) :
    ∃ r ∈ v.relations, r.child = x ∧ r.parent ∉ v.runnable := by
  obtain ⟨last, hlast, hstop⟩ := runFrom_reached v.searches.length (.start : v.Reached [] _)
  obtain ⟨hrun, htracks⟩ := hlast.run_tracks hv
  rcases hstop with hlen | hround
  · have hperm := (hrun.nodup.subperm hrun.mem_searches).perm_of_length_le hlen.ge
    exact absurd (hperm.mem_iff.2 hx) hran
  · exact htracks.stuck hround hx hran

theorem reached_snoc {last : Agenda} (h : v.Reached (ran ++ [id]) last) :
    ∃ a, v.Reached ran a ∧ v.round? a = some (id, last) := by
  generalize hl : ran ++ [id] = l at h
  cases h with
  | start => simp at hl
  | round hreached hround =>
    obtain ⟨rfl, hid⟩ := List.append_inj' hl rfl
    rw [List.singleton_inj] at hid
    subst hid
    exact ⟨_, hreached, hround⟩

/-- Each search that runs is the one that a round takes out. -/
theorem Reached.exists_round {last : Agenda} {later : List String}
    (h : v.Reached (ran ++ id :: later) last) :
    ∃ a next, v.Reached ran a ∧ v.round? a = some (id, next) := by
  induction later using List.reverseRecOn generalizing last with
  | nil =>
    obtain ⟨a, ha, hround⟩ := reached_snoc h
    exact ⟨a, last, ha, hround⟩
  | append_singleton later x ih =>
    rw [← List.cons_append, ← List.append_assoc] at h
    obtain ⟨a, ha, -⟩ := reached_snoc h
    exact ih ha

theorem runnable_round {later : List String} (h : v.runnable = ran ++ id :: later) :
    ∃ a next, v.Reached ran a ∧ v.round? a = some (id, next) := by
  obtain ⟨last, hlast, -⟩ := runFrom_reached v.searches.length (.start : v.Reached [] _)
  rw [List.nil_append] at hlast
  exact (h ▸ hlast : v.Reached (ran ++ id :: later) last).exists_round

theorem runnable_perm (hv : v.Closed) (h : v.runnable.length = v.searches.length) :
    v.runnable.Perm v.searches :=
  ((runnable_run hv).nodup.subperm (runnable_run hv).mem_searches).perm_of_length_le h.ge

/-! ## Cycles -/

/-- In a finite set each member of which has a predecessor in the set, some member is its own
predecessor, over one or more steps. -/
theorem exists_transGen_self (edge : String → String → Prop) {members : List String}
    (hne : members ≠ []) (hpred : ∀ x ∈ members, ∃ y ∈ members, edge y x) :
    ∃ x, Relation.TransGen edge x x := by
  by_contra hno
  push Not at hno
  let before : {x // x ∈ members} → {x // x ∈ members} → Prop :=
    fun a b => Relation.TransGen edge a.1 b.1
  have : Finite {x // x ∈ members} := members.finite_toSet
  have : IsTrans _ before := ⟨fun _ _ _ hab hbc => hab.trans hbc⟩
  have : Std.Irrefl before := ⟨fun a => hno a.1⟩
  have hwf : WellFounded before := Finite.wellFounded_of_trans_of_irrefl before
  obtain ⟨start, hstart⟩ := List.exists_mem_of_ne_nil _ hne
  obtain ⟨least, -, hleast⟩ := hwf.has_min Set.univ ⟨⟨start, hstart⟩, trivial⟩
  obtain ⟨y, hy, hedge⟩ := hpred least.1 least.2
  exact hleast ⟨y, hy⟩ trivial (.single hedge)

theorem complete_of_acyclic (hv : v.Closed) (h : ∀ x, ¬ Relation.TransGen v.Edge x x) :
    v.runnable.length = v.searches.length := by
  have hall : ∀ x ∈ v.searches, x ∈ v.runnable := by
    by_contra hleft
    push Not at hleft
    obtain ⟨x, hx, hran⟩ := hleft
    have hne : v.searches.filter (!v.runnable.contains ·) ≠ [] :=
      List.ne_nil_of_mem (List.mem_filter.2 ⟨hx, by simpa using hran⟩)
    obtain ⟨y, hy⟩ := exists_transGen_self v.Edge hne (by
      intro y hy
      obtain ⟨hy, hyr⟩ := List.mem_filter.1 hy
      obtain ⟨r, hr, rfl, hp⟩ := runnable_stuck hv hy (by simpa using hyr)
      exact ⟨r.parent, List.mem_filter.2 ⟨hv.parent_mem r hr, by simpa using hp⟩,
        r, hr, rfl, rfl⟩)
    exact h y hy
  exact le_antisymm ((runnable_run hv).nodup.subperm (runnable_run hv).mem_searches).length_le
    (hv.nodup.subperm hall).length_le

theorem edge_before (hv : v.Closed) (h : v.runnable.length = v.searches.length)
    {parent child : String} (he : v.Edge parent child) :
    [parent, child].Sublist v.runnable := by
  obtain ⟨r, hr, rfl, rfl⟩ := he
  exact (runnable_run hv).parent_before hr ((runnable_perm hv h).mem_iff.2 (hv.child_mem r hr))

theorem idxOf_lt_of_sublist {ids : List String} (hn : ids.Nodup) {a b : String}
    (h : [a, b].Sublist ids) : ids.idxOf a < ids.idxOf b := by
  induction ids with
  | nil => simp at h
  | cons x xs ih =>
    obtain ⟨hx, hn⟩ := List.nodup_cons.1 hn
    rcases List.sublist_cons_iff.1 h with h | ⟨l, hl, hsub⟩
    · have ha : a ∈ xs := h.subset (by simp)
      have hb : b ∈ xs := h.subset (by simp)
      rw [List.idxOf_cons_ne _ (by rintro rfl; exact hx ha),
        List.idxOf_cons_ne _ (by rintro rfl; exact hx hb)]
      exact Nat.succ_lt_succ (ih hn h)
    · simp only [List.cons.injEq] at hl
      obtain ⟨rfl, rfl⟩ := hl
      have hb : b ∈ xs := hsub.subset (by simp)
      rw [List.idxOf_cons_self, List.idxOf_cons_ne _ (by rintro rfl; exact hx hb)]
      exact Nat.succ_pos _

theorem acyclic_of_complete (hv : v.Closed) (h : v.runnable.length = v.searches.length)
    (x : String) : ¬ Relation.TransGen v.Edge x x := by
  have hlt : ∀ {a b}, Relation.TransGen v.Edge a b →
      v.runnable.idxOf a < v.runnable.idxOf b := by
    intro a b hab
    induction hab with
    | single he => exact idxOf_lt_of_sublist (runnable_run hv).nodup (edge_before hv h he)
    | tail _ he ih =>
      exact ih.trans (idxOf_lt_of_sublist (runnable_run hv).nodup (edge_before hv h he))
  exact fun hx => lt_irrefl _ (hlt hx)

/-- The searches have an order exactly if their relations have no cycle. The order names every
search once, and each after the searches it is related to. Whether there is an order or not, each
search that runs is taken out of the heap, and its relations then lower counts of which none is zero
before. -/
theorem order_topological (c : Section) :
    ((∃ ids, (ofSection c).order = .ok ids) ↔ ∀ x, ¬ Relation.TransGen (Ordered c) x x)
      ∧ (∀ ids, (ofSection c).order = .ok ids →
          ids.Perm (ofSection c).searches ∧ ids.Nodup ∧ (∀ x, x ∈ ids ↔ Mentioned c x)
            ∧ ∀ parent child, Ordered c parent child → [parent, child].Sublist ids)
      ∧ ∀ ran id later, (ofSection c).runnable = ran ++ id :: later →
          ∃ a place ready next, (ofSection c).Reached ran a
            ∧ a.ready.pop? = some (place, ready) ∧ (ofSection c).searches[place]? = some id
            ∧ ((ofSection c).successors id).foldlM (ofSection c).lower? { a with ready := ready }
              = some next
            ∧ (ofSection c).Reached (ran ++ [id]) next := by
  have hv := ofSection_closed c
  have hedge : (ofSection c).Edge = Ordered c := by
    funext parent child
    exact propext ofSection_edge
  have hok : ∀ ids, (ofSection c).order = .ok ids ↔
      (ofSection c).runnable.length = (ofSection c).searches.length
        ∧ (ofSection c).runnable = ids := by
    intro ids
    unfold order
    split_ifs with h <;> simp [h]
  refine ⟨⟨?_, ?_⟩, ?_, ?_⟩
  · rintro ⟨ids, h⟩ x
    rw [← hedge]
    exact acyclic_of_complete hv ((hok ids).1 h).1 x
  · intro h
    rw [← hedge] at h
    exact ⟨_, (hok _).2 ⟨complete_of_acyclic hv h, rfl⟩⟩
  · intro ids h
    obtain ⟨hlen, rfl⟩ := (hok ids).1 h
    refine ⟨runnable_perm hv hlen, (runnable_run hv).nodup, fun x => ?_, fun parent child ho => ?_⟩
    · rw [(runnable_perm hv hlen).mem_iff, mem_ofSection_searches]
    · rw [← hedge] at ho
      exact edge_before hv hlen ho
  · intro ran id later h
    obtain ⟨a, next, hreached, hround⟩ := runnable_round h
    obtain ⟨place, ready, hpop, hid, rfl⟩ := round?_cases hround
    obtain ⟨hrun, htracks⟩ := hreached.run_tracks hv
    obtain ⟨hfree, -, hshows⟩ := htracks.pop hv.nodup hpop hid
    exact ⟨a, place, ready, _, hreached, hpop, hid, (hfree.counts_down hv hrun hshows).1,
      hreached.round hround⟩

end View

end InstallerAnalysis.Search
