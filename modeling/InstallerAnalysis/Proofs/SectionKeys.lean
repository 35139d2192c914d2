import InstallerAnalysis.Proofs.Operations

/-!
# Rows are told apart by their keys

From the key of a row that is no action, the index leads to that row (`Keyed`), so no other row has
the key. Every operation keeps this, since what it adds without asking the index is an action
(`Writes.tidy`). In a run that starts with an empty section, a row with an identifier is therefore
refused exactly when its key is taken (`refused_iff_taken`).
-/

namespace InstallerAnalysis

/-- An error at one place, with a note on another place. -/
structure Diagnostic.Conflict (d : Diagnostic) (code : String) (loc first : Location) : Prop where
  isError : d.isError
  code : d.code.map Code.text = some code
  labels : d.labels.map (fun l => (l.location, l.primary)) = [(loc, true), (first, false)]

namespace Section

/-- From the key of a row that is no action, the index leads to that row. -/
def Keyed (c : Section) : Prop :=
  ∀ index s key, c.symbols[index]? = some s → s.key? = some key →
    key.1 ≠ Schema.Action.definition.name → c.keys.lookup key = some index

/-- The index and the rows agree, and every row has a place. -/
structure Tidy (c : Section) : Prop where
  indexed : c.Indexed
  keyed : c.Keyed
  located : ∀ s ∈ c.symbols, s.location.isSome

variable {c c' : Section} {s : Symbol} {rows : List Symbol} {key : String × String}

theorem getElem?_concat_eq_some {xs : List Symbol} {index : Nat} {t : Symbol}
    (h : (xs ++ [s])[index]? = some t) : xs[index]? = some t ∨ (index = xs.length ∧ t = s) := by
  rcases Nat.lt_trichotomy index xs.length with hlt | rfl | hgt
  · exact .inl (by rwa [List.getElem?_append_left hlt] at h)
  · simp only [List.getElem?_concat_length, Option.some.injEq] at h
    exact .inr ⟨rfl, h.symm⟩
  · have hlt := (List.getElem?_eq_some_iff.1 h).1
    rw [List.length_append, List.length_singleton] at hlt
    omega

theorem Keyed.push (h : c.Keyed) (hs : s.IsAction) : (c.push s).Keyed := by
  intro index t key ht hk hne
  rcases getElem?_concat_eq_some ht with ht | ⟨-, rfl⟩
  · exact h index t key ht hk hne
  · rw [key?_eq_some hk, hs] at hne
    exact absurd rfl hne

theorem Keyed.add (h : c.Keyed) (ha : c.add s = .ok c') : c'.Keyed := by
  intro index t key ht hk hne
  rw [symbols_of_add ha] at ht
  rcases getElem?_concat_eq_some ht with ht | ⟨rfl, rfl⟩
  · exact lookup_add ha (h index t key ht hk hne)
  · exact lookup_added ha hk

theorem Keyed.grows (h : c.Keyed) (hg : Grows Symbol.IsAction c rows c') : c'.Keyed :=
  hg.induct (P := Keyed) (fun _ ha hc => hc.add ha) (fun _ hs hc => hc.push hs) h

theorem Keyed.unique (h : c.Keyed) {i j : Nat} {t : Symbol} (hs : c.symbols[i]? = some s)
    (ht : c.symbols[j]? = some t) (hk : s.key? = some key) (hk' : t.key? = some key)
    (hne : key.1 ≠ Schema.Action.definition.name) : i = j :=
  Option.some.inj ((h i s key hs hk hne).symm.trans (h j t key ht hk' hne))

/-- A row is refused in favour of the row that has its key. -/
theorem Tidy.add_eq_error (h : c.Tidy) {t : Symbol} (ht : t ∈ c.symbols) (hk : t.key? = some key)
    (hne : key.1 ≠ Schema.Action.definition.name) (hs : s.key? = some key) :
    ∃ first, t.location = some first ∧ c.add s = .error ⟨key.1, key.2, some first⟩ := by
  obtain ⟨index, hindex⟩ := List.mem_iff_getElem?.1 ht
  obtain ⟨first, hfirst⟩ := Option.isSome_iff_exists.1 (h.located t ht)
  have hl := h.keyed index t key hindex hk hne
  refine ⟨first, hfirst, ?_⟩
  simp only [Section.add, hs, hl, hindex, Option.bind_some, hfirst]

theorem Indexed.exists_add_eq_ok (h : c.Indexed) (hs : s.key? = some key)
    (hfree : ∀ t ∈ c.symbols, t.key? ≠ some key) : ∃ c', c.add s = .ok c' := by
  rcases hl : c.keys.lookup key with _ | index
  · exact ⟨(c.hold key).push s, by simp only [Section.add, hs, hl]⟩
  · obtain ⟨t, ht, hk⟩ := h key index hl
    exact absurd hk (hfree t (List.mem_of_getElem? ht))

theorem tidy_empty (id : String) (location : Option Location) :
    Tidy { id := id, location := location } :=
  ⟨by simp [Indexed], by simp [Keyed], by simp⟩

end Section

namespace SourceUnit

variable {u u' : SourceUnit} {loc : Location} {paths : List (String × String)}

theorem Writes.tidy (hw : Writes loc paths u u') (h : u.content.Tidy) : u'.content.Tidy := by
  obtain ⟨rows, hg, hrows⟩ := hw.content
  refine ⟨h.indexed.grows hg, h.keyed.grows hg, fun s hs => ?_⟩
  rw [Section.symbols_of_grows hg] at hs
  rcases List.mem_append.1 hs with hs | hs
  · exact h.located s hs
  · rw [(hrows s hs).1]
    rfl

section Create

variable {α : Type} {table : TableRef} {definition : Table} {id : Identifier}
  {fill : Symbol → Symbol × α}

theorem createWith_none_iff (h : u.content.Tidy) (hfill : ∀ s, (fill s).1.key? = s.key?)
    (hl : u.catalog.lookupRef table = .ok definition)
    (hne : definition.name ≠ Schema.Action.definition.name) :
    (createWith loc table (some id) fill u).1 = none
      ↔ ∃ s ∈ u.content.symbols, s.key? = some (definition.name, id.id) := by
  have hkey : (fill (Symbol.blank definition (some loc) (some id))).1.key?
      = some (definition.name, id.id) := hfill _
  constructor
  · intro hnone
    by_contra hfree
    push Not at hfree
    obtain ⟨content, ha⟩ := h.indexed.exists_add_eq_ok hkey hfree
    rw [createWith_added hl ha] at hnone
    cases hnone
  · rintro ⟨s, hs, hk⟩
    obtain ⟨first, -, ha⟩ := h.add_eq_error hs hk hne hkey
    rw [createWith_taken hl ha]

/-- A row that is refused is reported together with the place of the row that has its key. -/
theorem createWith_conflict (h : u.content.Tidy) (hfill : ∀ s, (fill s).1.key? = s.key?)
    (hl : u.catalog.lookupRef table = .ok definition)
    (hne : definition.name ≠ Schema.Action.definition.name) {s : Symbol}
    (hs : s ∈ u.content.symbols) (hk : s.key? = some (definition.name, id.id)) :
    ∃ first d, s.location = some first ∧ d.Conflict "E100" loc first
      ∧ (createWith loc table (some id) fill u).2
        = u.withReports [d] := by
  have hkey : (fill (Symbol.blank definition (some loc) (some id))).1.key?
      = some (definition.name, id.id) := hfill _
  obtain ⟨first, hfirst, ha⟩ := h.add_eq_error hs hk hne hkey
  refine ⟨first, (Problem.duplicateSymbol definition.name id.id (some first)).report loc, hfirst,
    ⟨rfl, rfl, rfl⟩, ?_⟩
  rw [createWith_taken hl ha]
  rfl

theorem createWith_anonymous (hfill : ∀ s, (fill s).1.key? = s.key?)
    (hl : u.catalog.lookupRef table = .ok definition) :
    (createWith loc table none fill u).1.isSome := by
  have hkey : (fill (Symbol.blank definition (some loc) none)).1.key? = none := hfill _
  have ha : u.content.add (fill (Symbol.blank definition (some loc) none)).1
      = .ok (u.content.push (fill (Symbol.blank definition (some loc) none)).1) := by
    simp only [Section.add, hkey]
  rw [createWith_added hl ha]
  rfl

end Create

end SourceUnit

namespace Operation

open SourceUnit

theorem tidy_performAll : ∀ (ops : List Operation) {u : SourceUnit}, u.content.Tidy →
    (performAll ops u).content.Tidy
  | [], _, h => h
  | op :: ops, u, h => by
    obtain ⟨paths, hw⟩ := writes_perform_any op u
    exact tidy_performAll ops (hw.tidy h)

/-- In a run on an empty section, no two rows of a table other than that of actions share an
identifier, the index leads from keys to rows that have them, and a row with an identifier is
refused exactly when there is a row of its table and identifier already, whose place is then
reported. A row without an identifier is never refused. -/
theorem refused_iff_taken (ops : List Operation) (u : SourceUnit) (name : String)
    (place : Option Location) :
    let v := performAll ops { u with content := { id := name, location := place } }
    (∀ (i j : Nat) (s t : Symbol) (key : String × String), v.content.symbols[i]? = some s →
        v.content.symbols[j]? = some t → s.key? = some key → t.key? = some key →
        key.1 ≠ Schema.Action.definition.name → i = j)
      ∧ (∀ key index, v.content.keys.lookup key = some index →
          ∃ s, v.content.symbols[index]? = some s ∧ s.key? = some key)
      ∧ (∀ loc table definition id values, v.catalog.lookupRef table = .ok definition →
          definition.name ≠ Schema.Action.definition.name →
          ((createWith loc table (some id) (·.assignAll values) v).1 = none
              ↔ ∃ s ∈ v.content.symbols, s.key? = some (definition.name, id.id))
            ∧ ∀ s ∈ v.content.symbols, s.key? = some (definition.name, id.id) →
              ∃ first d, s.location = some first ∧ d.Conflict "E100" loc first
                ∧ (createWith loc table (some id) (·.assignAll values) v).2
                  = v.withReports [d])
      ∧ ∀ loc table definition values, v.catalog.lookupRef table = .ok definition →
          (createWith loc table none (·.assignAll values) v).1.isSome := by
  intro v
  have h : v.content.Tidy := tidy_performAll ops (Section.tidy_empty name place)
  refine ⟨?_, h.indexed, ?_, ?_⟩
  · intro i j s t key hs ht hk hk' hne
    exact h.keyed.unique hs ht hk hk' hne
  · intro loc table definition id values hl hne
    have hfill := Symbol.assignAll_key? values
    exact ⟨createWith_none_iff h hfill hl hne,
      fun s hs hk => createWith_conflict h hfill hl hne hs hk⟩
  · intro loc table definition values hl
    exact createWith_anonymous (Symbol.assignAll_key? values) hl

end Operation

end InstallerAnalysis
