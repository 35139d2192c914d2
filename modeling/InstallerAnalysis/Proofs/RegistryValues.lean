import InstallerAnalysis.Proofs.Operations
import InstallerAnalysis.Proofs.SynthesizedIdentifier
import Mathlib.Data.Set.Function

/-!
# Which registry values are told apart

A registry value is refused if an earlier call made its identifier (`Registered`). As long as the
hash does not collide, that is a call for which the same text was hashed (`identifier_eq_iff`). The
text tells component, root, key and name apart if the first two parts of it that authors write, the
component and the key, do not hold the character that joins the parts (`sameValue_of_hashedText`).
Where they do, two different values can have one text (`createRegistryValue_barredRun`).
-/

namespace InstallerAnalysis

namespace Text

theorem toNat_ofNat_eq {n m : Nat} (h : (Char.ofNat n).toNat = m) : n = m ∨ m = 0 := by
  by_cases hn : n.isValidChar
  · rw [Char.ofNat, dif_pos hn] at h
    exact .inl h
  · rw [Char.ofNat, dif_neg hn] at h
    exact .inr h.symm

/-- No other character has a bar for its lower case. -/
theorem eq_of_mem_lowerChar {c : Char} (h : '|' ∈ lowerChar c) : c = '|' := by
  unfold lowerChar at h
  split_ifs at h with hascii hdotted
  · have hsmall : ∀ n < 128, (Char.ofNat n).toLower = '|' → Char.ofNat n = '|' := by decide
    have hlower := hsmall c.toNat hascii
    rw [Char.ofNat_toNat] at hlower
    exact hlower (List.mem_singleton.1 h).symm
  · exact absurd h (by decide)
  · have hruns : caseRuns.all fun r =>
        decide (124 < (r.first : Int) + r.shift) || decide ((r.last : Int) + r.shift < 124) := by
      decide +kernel
    split at h
    · rename_i run hrun
      have hrange := List.all_eq_true.1 hruns run (List.mem_of_find?_eq_some hrun)
      have hcovers := List.find?_some hrun
      simp only [CaseRun.covers, Bool.and_eq_true, Bool.or_eq_true, decide_eq_true_eq]
        at hcovers hrange
      have hbar : ((c.toNat : Int) + run.shift).toNat = 124 :=
        (toNat_ofNat_eq (congrArg Char.toNat (List.mem_singleton.1 h)).symm).resolve_right
          (by decide)
      omega
    · exact (List.mem_singleton.1 h).symm

theorem mem_of_mem_lowerAfter : ∀ {cs : List Char} (before : List Char),
    '|' ∈ lowerAfter before cs → '|' ∈ cs
  | [], _, h => absurd h List.not_mem_nil
  | c :: cs, before, h => by
    rw [lowerAfter] at h
    rcases List.mem_append.1 h with h | h
    · split_ifs at h
      · exact absurd h (by decide)
      · exact absurd h (by decide)
      · exact List.mem_cons.2 (.inl (eq_of_mem_lowerChar h).symm)
    · exact List.mem_cons_of_mem _ (mem_of_mem_lowerAfter _ h)

theorem not_mem_lowercase {s : String} (h : '|' ∉ s.toList) : '|' ∉ (lowercase s).toList := by
  rw [lowercase, String.toList_ofList]
  exact mt (mem_of_mem_lowerAfter []) h

end Text

namespace Registry

theorem Root.text_code_inj {a b : Root} (h : toString a.code = toString b.code) : a = b := by
  have hall : ∀ a ∈ all, ∀ b ∈ all, toString a.code = toString b.code → a = b := by decide
  exact hall a (by cases a <;> decide) b (by cases b <;> decide) h

theorem Root.not_mem_text_code (root : Root) : '|' ∉ (toString root.code).toList := by
  cases root <;> decide

namespace Entry

/-- The text that is hashed for the identifier of a registry value. -/
def hashedText (e : Entry) : String :=
  Digest.partsText e.parts

/-- The same value of the same component, whatever the case of its letters. A missing name is an
empty one. -/
def SameValue (e e' : Entry) : Prop :=
  e.component = e'.component ∧ e.root = e'.root ∧ Text.lowercase e.key = Text.lowercase e'.key
    ∧ Text.lowercase (e.name.getD "") = Text.lowercase (e'.name.getD "")

instance (e e' : Entry) : Decidable (e.SameValue e') :=
  inferInstanceAs (Decidable (e.component = e'.component ∧ e.root = e'.root
    ∧ Text.lowercase e.key = Text.lowercase e'.key
    ∧ Text.lowercase (e.name.getD "") = Text.lowercase (e'.name.getD "")))

/-- The character that joins the parts is neither in the component nor in the key. -/
def Barless (e : Entry) : Prop :=
  '|' ∉ e.component.toList ∧ '|' ∉ e.key.toList

/-- The row of a registry value that was accepted. -/
def row (loc : Location) (e : Entry) : Symbol :=
  ⟨Schema.Registry.definition, some e.identifier, some loc,
    [some (.number e.root.code), some (.string e.key), e.name.map .string, e.value.map .string,
      some (.number e.valueType.code), some (.number e.valueAction.code),
      some (.string e.component)]⟩

/-- The section after a registry value was accepted. -/
def addedTo (c : Section) (loc : Location) (e : Entry) : Section :=
  (c.hold (Schema.Registry.definition.name, e.identifier.id)).push (e.row loc)

variable {e e' : Entry}

theorem hashedText_of_sameValue (h : e.SameValue e') : e.hashedText = e'.hashedText := by
  obtain ⟨hcomponent, hroot, hkey, hname⟩ := h
  rw [hashedText, hashedText, parts, parts, hcomponent, hroot, hkey, hname]

theorem sameValue_of_hashedText (he : e.Barless) (he' : e'.Barless)
    (h : e.hashedText = e'.hashedText) : e.SameValue e' := by
  obtain ⟨hcomponent, h⟩ := Digest.partsText_cons_inj he.1 he'.1 (by simp) (by simp) h
  obtain ⟨hroot, h⟩ := Digest.partsText_cons_inj e.root.not_mem_text_code
    e'.root.not_mem_text_code (by simp) (by simp) h
  obtain ⟨hkey, hname⟩ := Digest.partsText_cons_inj (Text.not_mem_lowercase he.2)
    (Text.not_mem_lowercase he'.2) (by simp) (by simp) h
  exact ⟨hcomponent, Root.text_code_inj hroot, hkey, by simpa [Digest.partsText] using hname⟩

theorem identifier_of_hashedText (h : e.hashedText = e'.hashedText) :
    e.identifier = e'.identifier := by
  have hdigest : Digest.partsDigest e.parts = Digest.partsDigest e'.parts :=
    congrArg Digest.textDigest h
  rw [identifier, identifier, Identifier.ofParts, Identifier.ofParts, hdigest]

end Entry

/-- The truncated hash tells apart the texts that are hashed for some registry values. -/
def CollisionFree (es : List Entry) : Prop :=
  Set.InjOn Digest.textDigest {text | ∃ e ∈ es, e.hashedText = text}

theorem collisionFree_iff {es : List Entry} : CollisionFree es ↔ ∀ e ∈ es, ∀ e' ∈ es,
    e.hashedText ≠ e'.hashedText →
      Digest.textDigest e.hashedText ≠ Digest.textDigest e'.hashedText := by
  constructor
  · exact fun h e he e' he' hne => (h.ne_iff ⟨e, he, rfl⟩ ⟨e', he', rfl⟩).2 hne
  · rintro h _ ⟨e, he, rfl⟩ _ ⟨e', he', rfl⟩
    exact not_imp_not.1 (h e he e' he')

instance (es : List Entry) : Decidable (CollisionFree es) :=
  decidable_of_iff _ collisionFree_iff.symm

theorem CollisionFree.identifier_eq_iff {es : List Entry} (h : CollisionFree es) {e e' : Entry}
    (he : e ∈ es) (he' : e' ∈ es) :
    e.identifier.id = e'.identifier.id ↔ e.hashedText = e'.hashedText := by
  constructor
  · intro hid
    exact h ⟨e, he, rfl⟩ ⟨e', he', rfl⟩ (Identifier.partsDigest_eq_of_ofParts_eq hid)
  · exact fun htext => congrArg Identifier.id (Entry.identifier_of_hashedText htext)

end Registry

open Registry

/-- The identifiers that are held are those of the registry values that were asked for, and every
row is that of one of them. -/
structure Registered (calls : List (Location × Entry)) (c : Section) : Prop where
  held : ∀ id, (c.keys.lookup (Schema.Registry.definition.name, id)).isSome
    ↔ ∃ call ∈ calls, call.2.identifier.id = id
  rows : ∀ s ∈ c.rowsOf Schema.Registry.definition.name, ∃ call ∈ calls, s = call.2.row call.1

namespace SourceUnit

variable {u : SourceUnit} {e : Entry} {calls : List (Location × Entry)}

theorem createRegistryValue_new (loc : Location) (hkey : e.key ≠ "")
    (hl : u.content.keys.lookup (Schema.Registry.definition.name, e.identifier.id) = none) :
    createRegistryValue loc e u
      = (some e.identifier, { u with content := e.addedTo u.content loc }) := by
  have hfill : ∀ s, (e.fill s).key? = s.key? := fun _ => by simp [Entry.fill]
  have hempty : ¬ e.key.isEmpty := by simpa using hkey
  rw [createRegistryValue, if_neg hempty, bind_apply, createRow_free hfill hl]
  rfl

theorem createRegistryValue_taken (loc : Location) (hkey : e.key ≠ "") {index : Nat}
    (hl : u.content.keys.lookup (Schema.Registry.definition.name, e.identifier.id) = some index) :
    createRegistryValue loc e u = (none, (report (.duplicateSymbol Schema.Registry.definition.name
      e.identifier.id (u.content.symbols[index]?.bind (·.location))) loc u).2) := by
  have hfill : ∀ s, (e.fill s).key? = s.key? := fun _ => by simp [Entry.fill]
  have hempty : ¬ e.key.isEmpty := by simpa using hkey
  rw [createRegistryValue, if_neg hempty, bind_apply, createRow_held hfill hl]
  rfl

/-- A registry value is refused if its identifier was made before, and otherwise added. -/
theorem createRegistryValue_cases (h : Registered calls u.content) (loc : Location)
    (hkey : e.key ≠ "") :
    (∃ call ∈ calls, call.2.identifier.id = e.identifier.id)
        ∧ (createRegistryValue loc e u).1 = none
        ∧ (createRegistryValue loc e u).2.content = u.content
      ∨ (¬ ∃ call ∈ calls, call.2.identifier.id = e.identifier.id)
        ∧ createRegistryValue loc e u
          = (some e.identifier, { u with content := e.addedTo u.content loc }) := by
  rw [← h.held]
  rcases hl : u.content.keys.lookup (Schema.Registry.definition.name, e.identifier.id)
    with _ | index
  · exact .inr ⟨by simp, createRegistryValue_new loc hkey hl⟩
  · rw [createRegistryValue_taken loc hkey hl]
    exact .inl ⟨rfl, rfl, rfl⟩

end SourceUnit

namespace Registered

open SourceUnit

variable {calls : List (Location × Entry)} {c c' : Section} {u : SourceUnit} {e : Entry}

theorem of_indexed (hi : c.Indexed) (hnone : c.rowsOf Schema.Registry.definition.name = []) :
    Registered [] c := by
  refine ⟨fun id => ?_, by simp [hnone]⟩
  simp [hi.lookup_eq_none hnone id]

theorem grows {free : Symbol → Prop} {rows : List Symbol} (h : Registered calls c)
    (hg : c.Grows free rows c') (hrows : c'.rowsOf Schema.Registry.definition.name
      = c.rowsOf Schema.Registry.definition.name) : Registered calls c' := by
  refine ⟨fun id => ?_, hrows ▸ h.rows⟩
  rw [Section.lookup_of_grows hg (Section.table_ne_of_grows hg hrows), h.held]

/-- One more call for an identifier that is held already. -/
theorem repeated (h : Registered calls c) (loc : Location)
    (he : ∃ call ∈ calls, call.2.identifier.id = e.identifier.id) :
    Registered (calls ++ [(loc, e)]) c := by
  refine ⟨fun id => ?_, fun s hs => ?_⟩
  · rw [h.held]
    simp only [List.mem_append, List.mem_singleton, or_and_right, exists_or, exists_eq_left]
    exact ⟨.inl, fun hid => hid.elim (fun hheld => hheld) fun heq => heq ▸ he⟩
  · obtain ⟨call, hcall, hrow⟩ := h.rows s hs
    exact ⟨call, List.mem_append_left _ hcall, hrow⟩

theorem added (h : Registered calls c) (loc : Location) (e : Entry) :
    Registered (calls ++ [(loc, e)]) (e.addedTo c loc) := by
  refine ⟨fun id => ?_, fun s hs => ?_⟩
  · rw [Entry.addedTo, Section.push, Section.isSome_lookup_hold, h.held]
    simp only [List.mem_append, List.mem_singleton, or_and_right, exists_or, exists_eq_left]
    simp [eq_comm]
  · rw [Entry.addedTo, Section.rowsOf, Section.push, List.filter_append, List.mem_append] at hs
    rcases hs with hs | hs
    · obtain ⟨call, hcall, hrow⟩ := h.rows s hs
      exact ⟨call, List.mem_append_left _ hcall, hrow⟩
    · exact ⟨(loc, e), by simp, List.mem_singleton.1 (List.mem_filter.1 hs).1⟩

end Registered

namespace Operation

open SourceUnit

def IsRegistryValue : Operation → Prop
  | registryValue .. => True
  | _ => False

/-- The registry value that an operation asks for, unless it has no key. -/
def registryCall? : Operation → Option (Location × Entry)
  | registryValue loc e => if e.key = "" then none else some (loc, e)
  | _ => none

/-- The registry values with a key that a run asks for, in order. -/
def registryCalls (ops : List Operation) : List (Location × Entry) :=
  ops.filterMap registryCall?

variable {op : Operation} {u : SourceUnit} {calls : List (Location × Entry)}

theorem registered_perform (h : Registered calls u.content)
    (hop : op.IsRegistryValue ∨ (op.perform u).content.rowsOf Schema.Registry.definition.name
      = u.content.rowsOf Schema.Registry.definition.name) :
    Registered (calls ++ op.registryCall?.toList) (op.perform u).content := by
  by_cases hi : op.IsRegistryValue
  · cases op with
    | registryValue loc e =>
      by_cases hkey : e.key = ""
      · have hsame : (createRegistryValue loc e u).2.content = u.content := by
          rw [createRegistryValue, if_pos (by simp [hkey])]
          rfl
        rw [registryCall?, if_pos hkey, Option.toList_none, List.append_nil, perform, hsame]
        exact h
      · rw [registryCall?, if_neg hkey, Option.toList_some, perform]
        obtain ⟨hmade, -, hsame⟩ | ⟨-, hnew⟩ := createRegistryValue_cases h loc hkey
        · rw [hsame]
          exact h.repeated loc hmade
        · rw [hnew]
          exact h.added loc e
    | _ => exact hi.elim
  · have hnone : op.registryCall? = none := by
      cases op with
      | registryValue => exact absurd trivial hi
      | _ => rfl
    obtain ⟨paths, hw⟩ := writes_perform_any op u
    obtain ⟨rows, hg, -⟩ := hw.content
    rw [hnone, Option.toList_none, List.append_nil]
    exact h.grows hg (hop.resolve_left hi)

theorem registered_performAll {ops : List Operation} (h : Registered calls u.content)
    (hrun : RowsOnlyFrom Schema.Registry.definition.name IsRegistryValue ops u) :
    Registered (calls ++ registryCalls ops) (performAll ops u).content :=
  hrun.keeps (P := fun calls u => Registered calls u.content) registered_perform h

/-- A registry value with a key is accepted exactly if no earlier call had the same text to hash, so
never after a call for the same value; if no component and no key holds a bar, always unless there
was such a call. Its row is added as it was asked for, and there are no other rows. -/
theorem createRegistryValue_performAll {ops : List Operation} (hi : u.content.Indexed)
    (hnone : u.content.rowsOf Schema.Registry.definition.name = [])
    (hrun : RowsOnlyFrom Schema.Registry.definition.name IsRegistryValue ops u) {e : Entry}
    (hkey : e.key ≠ "") (hfree : CollisionFree (e :: (registryCalls ops).map (·.2)))
    (loc : Location) :
    let calls := registryCalls ops
    let v := performAll ops u
    ((createRegistryValue loc e v).1.isSome
        ↔ ∀ call ∈ calls, call.2.hashedText ≠ e.hashedText)
      ∧ ((createRegistryValue loc e v).1.isSome → ∀ call ∈ calls, ¬ call.2.SameValue e)
      ∧ ((∀ e' ∈ e :: calls.map (·.2), e'.Barless) →
          ((createRegistryValue loc e v).1.isSome ↔ ∀ call ∈ calls, ¬ call.2.SameValue e))
      ∧ (∀ id, (createRegistryValue loc e v).1 = some id → id = e.identifier
          ∧ ∃ content, (createRegistryValue loc e v).2 = { v with content := content }
            ∧ content.symbols = v.content.symbols ++ [e.row loc])
      ∧ ∀ s ∈ v.content.rowsOf Schema.Registry.definition.name,
          ∃ call ∈ calls, s = call.2.row call.1 := by
  intro calls v
  have h : Registered calls v.content := registered_performAll (.of_indexed hi hnone) hrun
  have hmem : ∀ call ∈ calls, call.2 ∈ e :: calls.map (·.2) :=
    fun call hcall => List.mem_cons_of_mem _ (List.mem_map.2 ⟨call, hcall, rfl⟩)
  have hmade : (∃ call ∈ calls, call.2.identifier.id = e.identifier.id)
      ↔ ∃ call ∈ calls, call.2.hashedText = e.hashedText :=
    exists_congr fun call => and_congr_right fun hcall =>
      hfree.identifier_eq_iff (hmem call hcall) List.mem_cons_self
  have haccepted : (createRegistryValue loc e v).1.isSome
      ↔ ∀ call ∈ calls, call.2.hashedText ≠ e.hashedText := by
    obtain ⟨hmade', hrefused, -⟩ | ⟨hmade', hnew⟩ := createRegistryValue_cases h loc hkey
    · obtain ⟨call, hcall, htext⟩ := hmade.1 hmade'
      rw [hrefused]
      exact iff_of_false (by simp) fun hall => hall call hcall htext
    · rw [hmade] at hmade'
      push Not at hmade'
      rw [hnew]
      exact iff_of_true rfl hmade'
  refine ⟨haccepted, fun hsome call hcall hsame => ?_, fun hbarless => ?_, fun id hid => ?_, h.rows⟩
  · exact haccepted.1 hsome call hcall (Entry.hashedText_of_sameValue hsame)
  · rw [haccepted]
    refine forall₂_congr fun call hcall => not_congr ⟨?_, Entry.hashedText_of_sameValue⟩
    exact Entry.sameValue_of_hashedText (hbarless _ (hmem call hcall))
      (hbarless e List.mem_cons_self)
  · obtain ⟨-, hrefused, -⟩ | ⟨-, hnew⟩ := createRegistryValue_cases h loc hkey
    · rw [hrefused] at hid
      cases hid
    · rw [hnew] at hid ⊢
      exact ⟨(Option.some.inj hid).symm, _, rfl, rfl⟩

section Barred

def registryStart : SourceUnit := { catalog := Catalog.empty, content := { id := "Main" } }

theorem registryStart_indexed : registryStart.content.Indexed := by
  simp [registryStart, Section.Indexed]

def appPath : Entry :=
  { root := .localMachine, key := "Software\\App", component := "Main", name := some "Path" }

/-- One value twice, the second time in other letters. -/
def respelledRun : List Operation :=
  [registryValue ⟨"setup.xml", some 1⟩ appPath,
    reference ⟨"setup.xml", some 2⟩ "Component" ["Main"],
    registryValue ⟨"setup.xml", some 3⟩
      { appPath with key := "SOFTWARE\\App", name := some "path" }]

/-- A bar in a name does no harm. -/
theorem createRegistryValue_performAll_respelledRun :
    let v := performAll respelledRun registryStart
    let e := { appPath with name := some "Path|Old" }
    (createRegistryValue ⟨"setup.xml", some 4⟩ e v).1.isSome
      ∧ ∀ call ∈ registryCalls respelledRun, ¬ call.2.SameValue e := by
  intro v e
  have hfree : CollisionFree (e :: (registryCalls respelledRun).map (·.2)) := by decide +kernel
  have hrun : RowsOnlyFrom Schema.Registry.definition.name IsRegistryValue respelledRun
      registryStart := ⟨.inl trivial, .inr rfl, .inl trivial, trivial⟩
  obtain ⟨-, hnew, hiff, -⟩ := createRegistryValue_performAll registryStart_indexed rfl hrun
    (by decide) hfree ⟨"setup.xml", some 4⟩
  have hsome := (hiff (by unfold Entry.Barless; decide +kernel)).2 (by decide +kernel)
  exact ⟨hsome, hnew hsome⟩

/-- A value whose key holds a bar. -/
def betaPath : Entry :=
  { appPath with key := "Software\\App|Beta" }

/-- Another value, for which the same text is hashed. -/
def appBetaPath : Entry :=
  { appPath with name := some "Beta|Path" }

/-- The second of the two values is refused. -/
theorem createRegistryValue_barredRun :
    let run := [registryValue ⟨"setup.xml", some 1⟩ betaPath]
    (createRegistryValue ⟨"setup.xml", some 2⟩ appBetaPath (performAll run registryStart)).1 = none
      ∧ CollisionFree (appBetaPath :: (registryCalls run).map (·.2))
      ∧ ∀ call ∈ registryCalls run, ¬ call.2.SameValue appBetaPath := by
  intro run
  refine ⟨?_, by decide +kernel, by decide +kernel⟩
  have hrun : RowsOnlyFrom Schema.Registry.definition.name IsRegistryValue run registryStart :=
    ⟨.inl trivial, trivial⟩
  have hregistered : Registered (registryCalls run) (performAll run registryStart).content :=
    registered_performAll (.of_indexed registryStart_indexed rfl) hrun
  have htext : betaPath.hashedText = appBetaPath.hashedText := by decide +kernel
  obtain ⟨-, hrefused, -⟩ | ⟨hfree, -⟩ :=
    createRegistryValue_cases hregistered ⟨"setup.xml", some 2⟩ (e := appBetaPath) (by decide)
  · exact hrefused
  · exact absurd ⟨(⟨"setup.xml", some 1⟩, betaPath), List.mem_singleton_self _,
      congrArg Identifier.id (Entry.identifier_of_hashedText htext)⟩ hfree

end Barred

end Operation

end InstallerAnalysis
