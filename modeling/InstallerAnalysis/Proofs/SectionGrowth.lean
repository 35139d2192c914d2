import InstallerAnalysis.Section
import Mathlib.Data.List.Basic

/-!
# Sections only grow

`Grows` says how a section comes to hold more rows: they are added or, if they are free to share an
identifier, pushed, one after the other. A row that holds a table and an identifier keeps holding
them (`Holds.grows`), and rows of other tables do not bear on them (`lookup_of_grows`).
-/

namespace InstallerAnalysis.Section

/-- The second section is the first one after the rows were added, or pushed where they are free to
share an identifier, in their order. -/
inductive Grows (free : Symbol → Prop) : Section → List Symbol → Section → Prop
  | refl (c : Section) : Grows free c [] c
  | add {c c' c'' : Section} {s : Symbol} {rows : List Symbol} :
      c.add s = .ok c' → Grows free c' rows c'' → Grows free c (s :: rows) c''
  | push {c c' : Section} {s : Symbol} {rows : List Symbol} :
      free s → Grows free (c.push s) rows c' → Grows free c (s :: rows) c'

/-- The row to which the index leads from a table and an identifier. -/
def Holds (c : Section) (table id : String) (s : Symbol) : Prop :=
  ∃ index, c.keys.lookup (table, id) = some index ∧ c.symbols[index]? = some s

/-- The index leads to rows that have the table and the identifier. -/
def Indexed (c : Section) : Prop :=
  ∀ key index, c.keys.lookup key = some index →
    ∃ s, c.symbols[index]? = some s ∧ s.key? = some key

variable {free : Symbol → Prop} {c c' c'' : Section} {s : Symbol} {rows rows' : List Symbol}
  {table id : String}

theorem add_eq_ok (h : c.add s = .ok c') : (s.key? = none ∧ c' = c.push s)
    ∨ ∃ key, s.key? = some key ∧ c.keys.lookup key = none ∧ c' = (c.hold key).push s := by
  unfold add at h
  rcases hk : s.key? with _ | key <;> rw [hk] at h
  · cases h
    exact .inl ⟨rfl, rfl⟩
  · rcases hl : c.keys.lookup key with _ | index <;> simp only [hl] at h
    · cases h
      exact .inr ⟨key, rfl, hl, rfl⟩
    · cases h

theorem add_eq_error {taken : Duplicate} (h : c.add s = .error taken) :
    ∃ key index, s.key? = some key ∧ c.keys.lookup key = some index
      ∧ taken = ⟨key.1, key.2, c.symbols[index]?.bind (·.location)⟩ := by
  unfold add at h
  rcases hk : s.key? with _ | key <;> rw [hk] at h
  · cases h
  · rcases hl : c.keys.lookup key with _ | index <;> simp only [hl] at h
    · cases h
    · exact ⟨key, index, rfl, hl, (Except.error.inj h).symm⟩

theorem key?_eq_some {key : String × String} (h : s.key? = some key) : key.1 = s.table.name := by
  obtain ⟨i, -, rfl⟩ := Option.map_eq_some_iff.1 h
  rfl

theorem Grows.trans (h : Grows free c rows c') (h' : Grows free c' rows' c'') :
    Grows free c (rows ++ rows') c'' := by
  induction h with
  | refl => exact h'
  | add ha _ ih => exact .add ha (ih h')
  | push hf _ ih => exact .push hf (ih h')

/-- What a growing section keeps, given that one more row keeps it. -/
theorem Grows.induct {P : Section → Prop} (h : Grows free c rows c')
    (hadd : ∀ {c c' s}, s ∈ rows → c.add s = .ok c' → P c → P c')
    (hpush : ∀ {c s}, s ∈ rows → free s → P c → P (c.push s)) (hc : P c) : P c' := by
  induction h with
  | refl => exact hc
  | add ha _ ih =>
    exact ih (fun hs => hadd (List.mem_cons_of_mem _ hs))
      (fun hs => hpush (List.mem_cons_of_mem _ hs)) (hadd List.mem_cons_self ha hc)
  | push hf _ ih =>
    exact ih (fun hs => hadd (List.mem_cons_of_mem _ hs))
      (fun hs => hpush (List.mem_cons_of_mem _ hs)) (hpush List.mem_cons_self hf hc)

theorem symbols_of_add (h : c.add s = .ok c') : c'.symbols = c.symbols ++ [s] := by
  obtain ⟨-, rfl⟩ | ⟨key, -, -, rfl⟩ := add_eq_ok h <;> rfl

theorem symbols_of_grows (h : Grows free c rows c') : c'.symbols = c.symbols ++ rows := by
  induction h with
  | refl => simp
  | add ha _ ih => rw [ih, symbols_of_add ha, List.append_assoc, List.singleton_append]
  | push _ _ ih => rw [ih, push, List.append_assoc, List.singleton_append]

theorem rowsOf_of_grows (h : Grows free c rows c') (table : String) :
    c'.rowsOf table = c.rowsOf table ++ rows.filter (·.table.name = table) := by
  rw [rowsOf, rowsOf, symbols_of_grows h, List.filter_append]

/-- What leaves the rows of a table as they are adds none to it. -/
theorem table_ne_of_grows (h : Grows free c rows c') (hsame : c'.rowsOf table = c.rowsOf table) :
    ∀ s ∈ rows, s.table.name ≠ table := by
  rw [rowsOf_of_grows h, List.append_right_eq_self, List.filter_eq_nil_iff] at hsame
  intro s hs
  simpa using hsame s hs

theorem lookup_hold {key key' : String × String} : (c.hold key).keys.lookup key'
    = (c.keys.lookup key').or (if key' = key then some c.symbols.length else none) := by
  rw [hold, List.lookup_append, List.lookup_cons]
  by_cases he : key' = key
  · simp [he]
  · simp [he, beq_false_of_ne he]

theorem isSome_lookup_hold {key key' : String × String} : ((c.hold key).keys.lookup key').isSome
    ↔ (c.keys.lookup key').isSome ∨ key' = key := by
  rw [lookup_hold]
  by_cases he : key' = key <;> simp [he]

/-- Rows of other tables leave the index of a table as it is. -/
theorem lookup_of_grows (h : Grows free c rows c') (hrows : ∀ s ∈ rows, s.table.name ≠ table)
    (id : String) : c'.keys.lookup (table, id) = c.keys.lookup (table, id) := by
  refine h.induct (P := fun x => x.keys.lookup (table, id) = c.keys.lookup (table, id)) ?_ ?_ rfl
  · intro c₁ c₂ s hs ha hc
    obtain ⟨-, rfl⟩ | ⟨key, hk, -, rfl⟩ := add_eq_ok ha
    · exact hc
    · have hne : (table, id) ≠ key := fun he => hrows s hs (by rw [← key?_eq_some hk, ← he])
      rw [push, lookup_hold, if_neg hne, Option.or_none]
      exact hc
  · intro _ _ _ _ hc
    exact hc

theorem getElem?_append_of_eq_some {xs : List Symbol} {index : Nat} (h : xs[index]? = some s)
    (ys : List Symbol) : (xs ++ ys)[index]? = some s := by
  rw [List.getElem?_append_left (List.getElem?_eq_some_iff.1 h).1, h]

/-- What is indexed stays indexed. -/
theorem lookup_add {key : String × String} {index : Nat} (ha : c.add s = .ok c')
    (hl : c.keys.lookup key = some index) : c'.keys.lookup key = some index := by
  obtain ⟨-, rfl⟩ | ⟨key', -, -, rfl⟩ := add_eq_ok ha
  · exact hl
  · rw [push, lookup_hold, hl]
    rfl

theorem lookup_added {key : String × String} (ha : c.add s = .ok c') (hk : s.key? = some key) :
    c'.keys.lookup key = some c.symbols.length := by
  obtain ⟨hnone, -⟩ | ⟨key', hk', hl, rfl⟩ := add_eq_ok ha
  · rw [hk] at hnone
    cases hnone
  · obtain rfl : key' = key := Option.some.inj (hk'.symm.trans hk)
    rw [push, lookup_hold, hl, if_pos rfl]
    rfl

/-- A row that is added holds its key, which was free, and no other key. -/
theorem isSome_lookup_added {key : String × String} (ha : c.add s = .ok c')
    (hk : s.key? = some key) : c.keys.lookup key = none
      ∧ ∀ key', (c'.keys.lookup key').isSome ↔ (c.keys.lookup key').isSome ∨ key' = key := by
  obtain ⟨hnone, -⟩ | ⟨key', hk', hl, rfl⟩ := add_eq_ok ha
  · rw [hk] at hnone
    cases hnone
  · obtain rfl : key' = key := Option.some.inj (hk'.symm.trans hk)
    exact ⟨hl, fun _ => isSome_lookup_hold⟩

theorem Holds.add (h : Holds c table id s) {t : Symbol} (ha : c.add t = .ok c') :
    Holds c' table id s := by
  obtain ⟨index, hl, hs⟩ := h
  refine ⟨index, lookup_add ha hl, ?_⟩
  rw [symbols_of_add ha]
  exact getElem?_append_of_eq_some hs _

theorem Holds.push (h : Holds c table id s) (t : Symbol) : Holds (c.push t) table id s := by
  obtain ⟨index, hl, hs⟩ := h
  exact ⟨index, hl, getElem?_append_of_eq_some hs _⟩

theorem Holds.grows (h : Holds c table id s) (hg : Grows free c rows c') : Holds c' table id s :=
  hg.induct (P := fun x => Holds x table id s) (fun _ ha hc => hc.add ha)
    (fun _ _ hc => hc.push _) h

theorem Holds.of_added (ha : c.add s = .ok c') (hk : s.key? = some (table, id)) :
    Holds c' table id s :=
  ⟨c.symbols.length, lookup_added ha hk, by simp [symbols_of_add ha]⟩

theorem Holds.find? (h : Holds c table id s) : c.find? table id = some s := by
  obtain ⟨index, hl, hs⟩ := h
  rw [Section.find?, hl]
  exact hs

theorem Indexed.push (h : c.Indexed) (s : Symbol) : (c.push s).Indexed := by
  intro key index hl
  obtain ⟨t, ht, hk⟩ := h key index hl
  exact ⟨t, getElem?_append_of_eq_some ht _, hk⟩

theorem Indexed.add (h : c.Indexed) (ha : c.add s = .ok c') : c'.Indexed := by
  obtain ⟨-, rfl⟩ | ⟨key, hk, -, rfl⟩ := add_eq_ok ha
  · exact h.push s
  · intro key' index hl
    rw [Section.push, lookup_hold] at hl
    rcases hold : c.keys.lookup key' with _ | old <;> rw [hold] at hl
    · simp only [Option.none_or] at hl
      split_ifs at hl with he
      cases hl
      exact ⟨s, by simp [Section.push, Section.hold], by rw [hk, he]⟩
    · cases hl
      exact h.push s key' index hold

theorem Indexed.grows (h : c.Indexed) (hg : Grows free c rows c') : c'.Indexed :=
  hg.induct (P := Indexed) (fun _ ha hc => hc.add ha) (fun _ _ hc => hc.push _) h

/-- No identifier of a table without rows is held. -/
theorem Indexed.lookup_eq_none (h : c.Indexed) (hrows : c.rowsOf table = []) (id : String) :
    c.keys.lookup (table, id) = none := by
  rcases hl : c.keys.lookup (table, id) with _ | index
  · rfl
  · obtain ⟨s, hs, hk⟩ := h _ _ hl
    have hrow : s ∈ c.rowsOf table :=
      List.mem_filter.2 ⟨List.mem_of_getElem? hs, by simpa using (key?_eq_some hk).symm⟩
    rw [hrows] at hrow
    exact absurd hrow List.not_mem_nil

theorem Indexed.holds (h : c.Indexed) {index : Nat} (hl : c.keys.lookup (table, id) = some index) :
    ∃ s, Holds c table id s := by
  obtain ⟨s, hs, -⟩ := h _ _ hl
  exact ⟨s, index, hl, hs⟩

/-- What the index leads to after one more row, it led to before, or it is that row. -/
theorem Holds.of_add (hi : c.Indexed) {t : Symbol} (ha : c.add t = .ok c')
    (h : Holds c' table id s) : Holds c table id s ∨ (t.key? = some (table, id) ∧ s = t) := by
  obtain ⟨index, hl, hs⟩ := h
  rw [symbols_of_add ha] at hs
  have hkept (hl : c.keys.lookup (table, id) = some index) : Holds c table id s := by
    obtain ⟨s', hs', -⟩ := hi _ _ hl
    rw [List.getElem?_append_left (List.getElem?_eq_some_iff.1 hs').1] at hs
    exact ⟨index, hl, hs⟩
  obtain ⟨-, rfl⟩ | ⟨key, hk, -, rfl⟩ := add_eq_ok ha
  · exact .inl (hkept hl)
  · rw [Section.push, lookup_hold] at hl
    rcases hold : c.keys.lookup (table, id) with _ | old <;> rw [hold] at hl
    · simp only [Option.none_or] at hl
      split_ifs at hl with he
      cases hl
      simp only [List.getElem?_concat_length, Option.some.injEq] at hs
      exact .inr ⟨by rw [hk, he], hs.symm⟩
    · cases hl
      exact .inl (hkept hold)

theorem Holds.of_grows (hi : c.Indexed) (hg : Grows free c rows c')
    (hrows : ∀ s ∈ rows, s.table.name ≠ table) (h : Holds c' table id s) :
    Holds c table id s := by
  obtain ⟨index, hl, hs⟩ := h
  rw [lookup_of_grows hg hrows] at hl
  obtain ⟨s', hs', -⟩ := hi _ _ hl
  rw [symbols_of_grows hg, List.getElem?_append_left (List.getElem?_eq_some_iff.1 hs').1] at hs
  exact ⟨index, hl, hs⟩

end InstallerAnalysis.Section
