import InstallerAnalysis.Proofs.SearchOrder

/-!
# Of the searches that are ready, the one that came up first runs

`mentions` lists the searches as the rows of a section name them, and `entry` is the place where a
search comes up first. The view has its searches in this order (`pairwise_searches`), and the heap
holds all searches that are ready at the time, so what runs next is the first of them
(`takesFirst_runnable`). An order that always takes the first is the least of all topological
orders, compared search by search (`lex_of_takesFirst`).
-/

namespace InstallerAnalysis.Search

/-- The two searches that the row of a relation names, the earlier one first. -/
def namedBy (s : Symbol) : List String :=
  match s.id, s.get? Schema.SearchRelation.parent with
  | some child, some parent => [parent, child.id]
  | _, _ => []

/-- The searches as the rows of a section name them: those that it declares, then those that its
relations name. -/
def mentions (c : Section) : List String :=
  (c.rowsOf Schema.Search.definition.name).filterMap (·.id.map (·.id))
    ++ (c.rowsOf Schema.SearchRelation.definition.name).flatMap namedBy

/-- The place at which a search comes up first. -/
def entry (c : Section) (id : String) : Nat :=
  (mentions c).idxOf id

/-- A search that has not run, all of whose parents have. -/
def Ready (c : Section) (ran : List String) (id : String) : Prop :=
  Mentioned c id ∧ id ∉ ran ∧ ∀ parent, Ordered c parent id → parent ∈ ran

/-- Every search once, and each after those it is ordered after. -/
structure Topological (c : Section) (ids : List String) : Prop where
  nodup : ids.Nodup
  mem_iff : ∀ id, id ∈ ids ↔ Mentioned c id
  parent_before : ∀ parent child, Ordered c parent child → [parent, child].Sublist ids

/-- At every position stands the search that came up first among those that are ready there. -/
def TakesFirst (c : Section) (ids : List String) : Prop :=
  ∀ ran id later, ids = ran ++ id :: later →
    Ready c ran id ∧ ∀ other, Ready c ran other → entry c id ≤ entry c other

/-! ## The order in which searches come up -/

theorem flatMap_filterMap_ofSymbol? : ∀ rows : List Symbol,
    ((rows.filterMap Relation.ofSymbol?).flatMap fun r => [r.parent, r.child])
      = rows.flatMap namedBy
  | [] => rfl
  | s :: rows => by
    have ih := flatMap_filterMap_ofSymbol? rows
    rw [List.flatMap_cons, ← ih, List.filterMap_cons]
    unfold Relation.ofSymbol? namedBy
    rcases s.id with _ | child <;> rcases s.get? Schema.SearchRelation.parent with _ | parent <;> rfl

variable {c : Section} {ran ids : List String} {id : String}

theorem searches_ofSection (c : Section) :
    (View.ofSection c).searches = (mentions c).eraseDups := by
  rw [mentions, ← flatMap_filterMap_ofSymbol?]
  rfl

theorem pairwise_searches (c : Section) :
    (View.ofSection c).searches.Pairwise fun x y => entry c x < entry c y := by
  rw [searches_ofSection]
  exact pairwise_eraseDups _

theorem mem_mentions : id ∈ mentions c ↔ Mentioned c id := by
  rw [← View.mem_ofSection_searches, searches_ofSection, List.mem_eraseDups]

theorem edge_ofSection (c : Section) : (View.ofSection c).Edge = Ordered c := by
  funext parent child
  exact propext View.ofSection_edge

theorem free_iff_ready : (View.ofSection c).Free ran id ↔ Ready c ran id := by
  unfold View.Free Ready
  rw [View.mem_ofSection_searches, ← edge_ofSection]
  refine and_congr_right fun _ => and_congr_right fun _ => ⟨?_, ?_⟩
  · rintro h parent ⟨r, hr, rfl, hc⟩
    exact h r hr hc
  · exact fun h r hr hc => h r.parent ⟨r, hr, rfl, hc⟩

/-! ## What runs next -/

theorem entry_lt_of_idxOf_lt {x y : String} (hy : y ∈ (View.ofSection c).searches)
    (h : (View.ofSection c).searches.idxOf x < (View.ofSection c).searches.idxOf y) :
    entry c x < entry c y := by
  have hlast := List.idxOf_lt_length_of_mem hy
  have hlt := List.pairwise_iff_getElem.1 (pairwise_searches c) _ _ (h.trans hlast) hlast h
  rwa [List.getElem_idxOf, List.getElem_idxOf] at hlt

/-- The heap gives out the search that came up first among those that are ready. -/
theorem takesFirst_runnable (c : Section) : TakesFirst c (View.ofSection c).runnable := by
  have hv := View.ofSection_closed c
  intro ran id later h
  obtain ⟨a, next, hreached, hround⟩ := View.runnable_round h
  obtain ⟨place, ready, hpop, hid, -⟩ := View.round?_cases hround
  obtain ⟨hfree, hfirst, -⟩ := (hreached.run_tracks hv).2.pop hv.nodup hpop hid
  refine ⟨free_iff_ready.1 hfree, fun other hother => ?_⟩
  have hother := free_iff_ready.2 hother
  rcases (hfirst other hother).eq_or_lt with heq | hlt
  · rw [(List.idxOf_inj hfree.1).1 heq]
  · exact (entry_lt_of_idxOf_lt hother.1 hlt).le

/-! ## The least order -/

theorem Topological.ready {later : List String} (h : Topological c (ran ++ id :: later)) :
    Ready c ran id := by
  have hid : id ∉ ran := by
    intro hmem
    exact (List.nodup_append.1 h.nodup).2.2 id hmem id List.mem_cons_self rfl
  refine ⟨(h.mem_iff id).1 (by simp), hid, fun parent ho => ?_⟩
  by_contra hparent
  have hlt := View.idxOf_lt_of_sublist h.nodup (h.parent_before parent id ho)
  rw [List.idxOf_append_of_notMem hid, List.idxOf_append_of_notMem hparent,
    List.idxOf_cons_self] at hlt
  omega

/-- Two orders that start alike: if the first one always takes what came up first, the second one
is the same, or takes something later at the first position where they differ. -/
theorem lex_of_takesFirst : ∀ {rest rest' ran : List String}, Topological c (ran ++ rest) →
    TakesFirst c (ran ++ rest) → Topological c (ran ++ rest') →
    rest' = rest ∨ List.Lex (fun x y => entry c x < entry c y) rest rest'
  | [], [], _, _, _, _ => .inl rfl
  | [], id :: rest', ran, h, _, h' => by
    obtain ⟨hm, hran, -⟩ := h'.ready
    exact absurd ((h.mem_iff id).2 hm) (by simpa using hran)
  | id :: rest, [], ran, h, _, h' => by
    obtain ⟨hm, hran, -⟩ := h.ready
    exact absurd ((h'.mem_iff id).2 hm) (by simpa using hran)
  | id :: rest, other :: rest', ran, h, hfirst, h' => by
    have hle := (hfirst ran id rest rfl).2 other h'.ready
    rcases Nat.lt_or_eq_of_le hle with hlt | heq
    · exact .inr (.rel hlt)
    · obtain rfl : id = other := (List.idxOf_inj (mem_mentions.2 h.ready.1)).1 heq
      rw [List.append_cons] at h hfirst h'
      rcases lex_of_takesFirst h hfirst h' with rfl | hlex
      · exact .inl rfl
      · exact .inr (.cons hlex)

theorem topological_runnable
    (h : (View.ofSection c).runnable.length = (View.ofSection c).searches.length) :
    Topological c (View.ofSection c).runnable where
  nodup := (View.runnable_run (View.ofSection_closed c)).nodup
  mem_iff id := by
    rw [(View.runnable_perm (View.ofSection_closed c) h).mem_iff, View.mem_ofSection_searches]
  parent_before parent child ho := by
    rw [← edge_ofSection] at ho
    exact View.edge_before (View.ofSection_closed c) h ho

/-- The searches of a section without cycles are put in the topological order that takes, at every
position, the search that came up first among those that are ready. It is the least topological
order, compared by where the searches come up first. -/
theorem order_least (h : ∀ x, ¬ Relation.TransGen (Ordered c) x x) :
    ∃ ids, (View.ofSection c).order = .ok ids ∧ Topological c ids ∧ TakesFirst c ids
      ∧ ∀ other, Topological c other →
        other = ids ∨ List.Lex (fun x y => entry c x < entry c y) ids other := by
  rw [← edge_ofSection] at h
  have hlen := View.complete_of_acyclic (View.ofSection_closed c) h
  have htopological : Topological c ([] ++ (View.ofSection c).runnable) :=
    topological_runnable hlen
  have hfirst := takesFirst_runnable c
  refine ⟨_, if_pos hlen, htopological, hfirst, fun other ho => ?_⟩
  exact lex_of_takesFirst htopological hfirst ho

section Crossed

def searchRow (id : String) : Symbol :=
  Symbol.blank Schema.Search.definition none (some (Identifier.ofId id))

def afterRow (child parent : String) : Symbol :=
  (Symbol.blank Schema.SearchRelation.definition none (some (Identifier.ofId child))).put
    Schema.SearchRelation.parent parent

/-- The first search waits twice for the third one, which waits for one that is declared
elsewhere. -/
def crossed : Section where
  id := "Main"
  symbols := [afterRow "Late" "Early", searchRow "Late", searchRow "Free", searchRow "Early",
    afterRow "Late" "Early", afterRow "Early" "Elsewhere"]

theorem order_least_crossed :
    (∀ x, ¬ Relation.TransGen (Ordered crossed) x x)
      ∧ (View.ofSection crossed).order = .ok ["Free", "Elsewhere", "Early", "Late"]
      ∧ ∀ other, Topological crossed other →
        other = ["Free", "Elsewhere", "Early", "Late"]
          ∨ List.Lex (fun x y => entry crossed x < entry crossed y)
            ["Free", "Elsewhere", "Early", "Late"] other := by
  have hacyclic : ∀ x, ¬ Relation.TransGen (Ordered crossed) x x := by
    rw [← edge_ofSection]
    exact View.acyclic_of_complete (View.ofSection_closed crossed) (by decide)
  have horder : (View.ofSection crossed).order = .ok ["Free", "Elsewhere", "Early", "Late"] := by
    decide
  obtain ⟨ids, hids, -, -, hleast⟩ := order_least hacyclic
  obtain rfl := Except.ok.inj (horder.symm.trans hids)
  exact ⟨hacyclic, horder, hleast⟩

end Crossed

end InstallerAnalysis.Search
