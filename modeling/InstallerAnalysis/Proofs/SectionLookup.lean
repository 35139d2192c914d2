import InstallerAnalysis.Proofs.SectionGrowth

/-!
# Looking up a row by its key

After any calls that add and push rows, a scan finds the first row that was given with the key, and
the index leads to the first row that was added with it (`Recorded`). A look-up trusts the index,
so it agrees with the scan exactly if the first row that was added under the key is the first one
at all (`find?_appendAll`). A row that was pushed before makes the difference.
-/

namespace InstallerAnalysis.Section

/-- The first row that has a table and an identifier. -/
def scan? (c : Section) (table id : String) : Option Symbol :=
  c.symbols.find? fun s => s.table.name = table && s.id.any (·.id = id)

/-- A call that gives a section a row. -/
inductive Append where
  | add (s : Symbol)
  | push (s : Symbol)

namespace Append

/-- The section after the call. A row that is refused leaves it as it is. -/
def perform : Append → Section → Section
  | add s, c =>
    match c.add s with
    | .ok c' => c'
    | .error _ => c
  | push s, c => c.push s

/-- The row that the call adds, if it has the key. -/
def added? (key : String × String) : Append → Option Symbol
  | add s => if s.key? = some key then some s else none
  | push _ => none

/-- The row that the call gives, if it has the key. -/
def given? (key : String × String) : Append → Option Symbol
  | add s => if s.key? = some key then some s else none
  | push s => if s.key? = some key then some s else none

@[simp] theorem added?_add (key : String × String) (s : Symbol) :
    (add s).added? key = if s.key? = some key then some s else none := rfl

@[simp] theorem added?_push (key : String × String) (s : Symbol) :
    (push s).added? key = none := rfl

@[simp] theorem given?_add (key : String × String) (s : Symbol) :
    (add s).given? key = if s.key? = some key then some s else none := rfl

@[simp] theorem given?_push (key : String × String) (s : Symbol) :
    (push s).given? key = if s.key? = some key then some s else none := rfl

theorem given?_of_added? {key : String × String} {call : Append} {s : Symbol}
    (h : call.added? key = some s) : call.given? key = some s := by
  cases call with
  | add t => exact h
  | push t => cases h

end Append

def appendAll (calls : List Append) (c : Section) : Section :=
  calls.foldl (fun c call => call.perform c) c

variable {c c' : Section} {s t : Symbol} {calls : List Append} {table id : String}

theorem scan?_eq (c : Section) (table id : String) :
    c.scan? table id = c.symbols.find? (·.key? = some (table, id)) := by
  refine congrArg (c.symbols.find? ·) (funext fun s => ?_)
  rcases hs : s.id with _ | i <;> simp [Symbol.key?, hs]

theorem scan?_concat (h : c'.symbols = c.symbols ++ [s]) (table id : String) :
    c'.scan? table id
      = (c.scan? table id).or (if s.key? = some (table, id) then some s else none) := by
  rw [scan?_eq, scan?_eq, h, List.find?_append]
  by_cases hs : s.key? = some (table, id) <;> simp [hs]

theorem holds_push_iff (hi : c.Indexed) : (c.push s).Holds table id t ↔ c.Holds table id t := by
  refine ⟨fun ⟨index, hl, ht⟩ => ?_, fun h => h.push s⟩
  -- the index leads to an earlier row than the one that was pushed
  obtain ⟨t', ht', -⟩ := hi _ _ hl
  have hlt := (List.getElem?_eq_some_iff.1 ht').1
  rw [push, List.getElem?_append_left hlt] at ht
  exact ⟨index, hl, ht⟩

theorem holds_add_iff (hi : c.Indexed) (ha : c.add s = .ok c') :
    c'.Holds table id t ↔ c.Holds table id t ∨ (s.key? = some (table, id) ∧ t = s) := by
  refine ⟨fun h => h.of_add hi ha, ?_⟩
  rintro (h | ⟨hk, rfl⟩)
  · exact h.add ha
  · exact .of_added ha hk

theorem find?_eq_scan? (hi : c.Indexed) (h : ∀ s, ¬ c.Holds table id s) :
    c.find? table id = c.scan? table id := by
  rcases hl : c.keys.lookup (table, id) with _ | index
  · rw [find?, hl, scan?_eq]
  · obtain ⟨s, hs⟩ := hi.holds hl
    exact absurd hs (h s)

/-- The rows and the index of a section tell the calls that it comes from. -/
structure Recorded (calls : List Append) (c : Section) : Prop where
  indexed : c.Indexed
  holds_iff : ∀ table id s, c.Holds table id s ↔ calls.findSome? (·.added? (table, id)) = some s
  scanned : ∀ table id, c.scan? table id = calls.findSome? (·.given? (table, id))

namespace Recorded

theorem empty (name : String) (place : Option Location) :
    Recorded [] { id := name, location := place } :=
  ⟨by simp [Indexed], by simp [Holds], by simp [scan?]⟩

theorem snoc_push (h : Recorded calls c) (s : Symbol) :
    Recorded (calls ++ [.push s]) (c.push s) := by
  refine ⟨h.indexed.push s, fun table id t => ?_, fun table id => ?_⟩
  · rw [holds_push_iff h.indexed, h.holds_iff]
    simp [List.findSome?_append]
  · rw [scan?_concat rfl, h.scanned]
    simp [List.findSome?_append]

theorem snoc_add (h : Recorded calls c) (ha : c.add s = .ok c') :
    Recorded (calls ++ [.add s]) c' := by
  refine ⟨h.indexed.add ha, fun table id t => ?_, fun table id => ?_⟩
  · rw [holds_add_iff h.indexed ha]
    by_cases hs : s.key? = some (table, id)
    · -- the key was free, so none of the calls had added it
      have hfree (t : Symbol) : ¬ c.Holds table id t := by
        rintro ⟨index, hl, -⟩
        rw [(isSome_lookup_added ha hs).1] at hl
        cases hl
      have hnone : calls.findSome? (·.added? (table, id)) = none :=
        Option.eq_none_iff_forall_ne_some.2 fun t ht => hfree t ((h.holds_iff _ _ _).2 ht)
      simp [List.findSome?_append, hnone, hfree, hs, eq_comm]
    · simp [List.findSome?_append, h.holds_iff, hs]
  · rw [scan?_concat (symbols_of_add ha), h.scanned]
    simp [List.findSome?_append]

theorem given_of_added (h : calls.findSome? (·.added? (table, id)) = some s) :
    (calls.findSome? (·.given? (table, id))).isSome := by
  obtain ⟨call, hcall, hs⟩ := List.exists_of_findSome?_eq_some h
  rw [List.findSome?_isSome_iff]
  exact ⟨call, hcall, by rw [Append.given?_of_added? hs]; rfl⟩

theorem snoc_refused (h : Recorded calls c) {taken : Duplicate} (ha : c.add s = .error taken) :
    Recorded (calls ++ [.add s]) c := by
  obtain ⟨key, index, hk, hl, -⟩ := add_eq_error ha
  obtain ⟨first, hfirst⟩ := h.indexed.holds hl
  have hadded := (h.holds_iff _ _ _).1 hfirst
  obtain ⟨given, hgiven⟩ := Option.isSome_iff_exists.1 (given_of_added hadded)
  refine ⟨h.indexed, fun table id t => ?_, fun table id => ?_⟩
  · rw [h.holds_iff, List.findSome?_append]
    by_cases hs : key = (table, id)
    · rw [← hs, hadded, Option.some_or]
    · simp [hk, hs]
  · rw [h.scanned, List.findSome?_append]
    by_cases hs : key = (table, id)
    · rw [← hs, hgiven, Option.some_or]
    · simp [hk, hs]

theorem snoc (h : Recorded calls c) (call : Append) :
    Recorded (calls ++ [call]) (call.perform c) := by
  cases call with
  | push s => exact h.snoc_push s
  | add s =>
    rcases ha : c.add s with taken | c'
    · simpa only [Append.perform, ha] using h.snoc_refused ha
    · simpa only [Append.perform, ha] using h.snoc_add ha

theorem appendAll : ∀ (later : List Append) {earlier : List Append} {c : Section},
    Recorded earlier c → Recorded (earlier ++ later) (Section.appendAll later c)
  | [], _, _, h => by rwa [List.append_nil]
  | call :: later, _, _, h => by
    have hlater := appendAll later (h.snoc call)
    rwa [List.append_assoc, List.singleton_append] at hlater

theorem find?_eq (h : Recorded calls c) (table id : String) : c.find? table id
    = (calls.findSome? (·.added? (table, id))).or (calls.findSome? (·.given? (table, id))) := by
  rcases hadded : calls.findSome? (·.added? (table, id)) with _ | s
  · rw [find?_eq_scan? h.indexed (by simp [h.holds_iff, hadded]), h.scanned, hadded,
      Option.none_or]
  · rw [hadded, Option.some_or]
    exact ((h.holds_iff table id s).2 hadded).find?

end Recorded

/-- A scan gives the first row that was given with the key, a look-up the first one that was added
with it, if there is one. So the two agree if and only if these are the same. -/
theorem find?_appendAll (calls : List Append) (name : String) (place : Option Location)
    (table id : String) :
    let c := appendAll calls { id := name, location := place }
    let first := calls.findSome? (·.given? (table, id))
    let added := calls.findSome? (·.added? (table, id))
    c.scan? table id = first ∧ c.find? table id = added.or first
      ∧ (c.find? table id = c.scan? table id ↔ ∀ s, added = some s → first = some s) := by
  intro c first added
  have h : Recorded calls c := (Recorded.empty name place).appendAll calls
  have hscan : c.scan? table id = first := h.scanned table id
  have hfind : c.find? table id = added.or first := h.find?_eq table id
  refine ⟨hscan, hfind, ?_⟩
  rw [hfind, hscan]
  rcases added with _ | s
  · simp
  · simp [eq_comm]

section PushedFirst

def rootRow (line : Nat) : Symbol :=
  Symbol.blank Schema.Directory.definition (some ⟨"product.wxs", some line⟩)
    (some (Identifier.ofId "TARGETDIR"))

/-- A row is pushed, and then another one is added under its key. -/
def pushedFirst : List Append := [.push (rootRow 1), .add (rootRow 2)]

theorem find?_ne_scan?_pushedFirst :
    let c := appendAll pushedFirst { id := "Product" }
    c.scan? "Directory" "TARGETDIR" = some (rootRow 1)
      ∧ c.find? "Directory" "TARGETDIR" = some (rootRow 2) ∧ rootRow 1 ≠ rootRow 2 := by
  decide

end PushedFirst

end InstallerAnalysis.Section
