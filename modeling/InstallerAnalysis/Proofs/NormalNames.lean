import InstallerAnalysis.Proofs.NestedNames
import InstallerAnalysis.Proofs.RelativePaths
import InstallerAnalysis.Proofs.VariableReferences

/-!
# Names that were read are read again as they are

A path in normal form does not climb, so it is read as itself (`outcome_of_normal`). Other names are
kept as they are written. So what was read as a long name is read again as the same name, with one
exception: blank texts are refused before a path is resolved, not after, and a path such as `./ `
can come to a single blank name (`allBlank_iff_of_valid`).
-/

namespace InstallerAnalysis

/-- A text of characters of a class without separators is a single segment. -/
theorem Filename.segments_eq_singleton {p : Char → Bool} (hback : p '\\' = false)
    (hslash : p '/' = false) {cs : List Char} (h : ∀ c ∈ cs, p c) : segments cs = [cs] :=
  List.splitOnP_eq_singleton fun c hc => not_isSeparator_of_class hback hslash (h c hc)

namespace Variable

/-- A localization reference is a single name for a path. -/
theorem segments_of_isLocalization {s : String} (h : isLocalization s) :
    Filename.segments s.toList = [s.toList] ∧ Filename.isPlain s.toList := by
  obtain ⟨r, hr, hloc⟩ := (Option.any_eq_true _ _).1 h
  obtain ⟨heq, -, hspace, hlegal⟩ := Reference.read?_eq_some_iff.1 hr
  have hsigil : r.sigil = .bang := by
    simp only [Reference.isLocalization, Bool.and_eq_true, decide_eq_true_eq] at hloc
    exact hloc.1
  constructor
  · refine Filename.segments_eq_singleton
      (p := fun c => Identifier.isChar c || "!(.)".toList.contains c) rfl rfl fun c hc => ?_
    rw [heq] at hc
    simp only [Reference.render, hsigil, Sigil.char, List.mem_append, List.mem_cons] at hc
    rcases hc with ((rfl | rfl | hc) | rfl | hc) | rfl | hc
    · rfl
    · rfl
    · simp [Identifier.isChar, hspace c hc]
    · rfl
    · simp [Identifier.isChar_of_isLegalText hlegal c hc]
    · rfl
    · cases hc
  · rw [heq]
    simp [Reference.render, Filename.isPlain_iff, hsigil, Sigil.char]

end Variable

namespace Filename

variable {wildcards : Bool} {s : String} {path : List (List Char)}

/-- A path that leads from the top to a single blank name. -/
def isBlankPath (s : String) : Bool :=
  match walk [] (segments s.toList) with
  | [name] => name.all Text.isBlank
  | _ => false

theorem isBlankPath_iff :
    isBlankPath s ↔ ∃ name, walk [] (segments s.toList) = [name] ∧ name.all Text.isBlank := by
  unfold isBlankPath
  split
  · rename_i name hname
    simp [hname]
  · rename_i hne
    simp only [Bool.false_eq_true, false_iff, not_exists, not_and]
    exact fun name hname => absurd hname (hne name)

theorem not_escapes_of_plain (h : ∀ name ∈ path, isPlain name) : ¬ Escapes path := by
  rintro ⟨start, hstart, hlt⟩
  have hnone : ['.', '.'] ∉ start := fun hmem => absurd (h _ (hstart.subset hmem)) (by decide)
  rw [List.count_eq_zero_of_not_mem hnone] at hlt
  omega

theorem Normal.not_escapes (h : Normal wildcards s) : ¬ Escapes (segments s.toList) :=
  not_escapes_of_plain fun name hname => (h.plain name hname).1

theorem segments_of_allBlank (h : Text.allBlank s) : segments s.toList = [s.toList] :=
  segments_eq_singleton (p := Text.isBlank) rfl rfl (List.all_eq_true.1 h)

/-- Only a text of one name can be blank: the backslash is not. -/
theorem Normal.isBlankPath_iff (h : Normal wildcards s) : isBlankPath s ↔ Text.allBlank s := by
  rw [Filename.isBlankPath_iff, walk_plains fun name hname => (h.plain name hname).1]
  constructor
  · rintro ⟨name, hname, hblank⟩
    have hone : segments s.toList = [name] := by simpa using hname
    have hs := h.joined
    rw [hone, joinNames, List.intercalate_singleton] at hs
    rw [Text.allBlank, hs]
    exact hblank
  · intro hblank
    exact ⟨s.toList, by simp [segments_of_allBlank hblank], hblank⟩

end Filename

namespace Coercion

open Filename

variable {wildcards relative : Bool} {a b : Attribute} {r : String} {loc : Location}
  {u : SourceUnit}

/-- A name is read as it is written, or it is a path and the name is its normal form. -/
theorem longName_valid
    (hvalid : (SourceUnit.readAttribute (longName wildcards relative) loc a u).1 = .valid r) :
    Text.allBlank a.value = false
      ∧ (r = a.value
          ∧ (Variable.isLocalization a.value ∨ relative = false ∧ isLong wildcards false r)
        ∨ relative = true ∧ Normal wildcards r
          ∧ ∀ base, walk base (segments a.value.toList) = walk base (segments r.toList)) := by
  obtain ⟨-, h⟩ | ⟨hblank, ⟨hloc, h⟩ | ⟨hloc, hname⟩⟩ := longName_cases wildcards relative a
  · rw [h.eq] at hvalid
    cases hvalid
  · rw [h.eq] at hvalid
    cases hvalid
    exact ⟨hblank, .inl ⟨rfl, .inl hloc⟩⟩
  · refine ⟨hblank, ?_⟩
    cases relative with
    | true => exact .inr ⟨rfl, ((path_valid_iff hblank hloc).1 hvalid).2⟩
    | false =>
      -- where no paths are allowed, a name is kept as it is written
      obtain ⟨-, h⟩ | ⟨name, hname, ⟨hlong, h⟩ | ⟨-, h⟩⟩ := hname
      all_goals
        rw [h.eq] at hvalid
        cases hvalid
      cases hname
      exact .inl ⟨rfl, .inr ⟨rfl, hlong⟩⟩

/-- A text that is not blank is kept if it is localized, a legal name, or a path in normal form. -/
theorem longName_valid_self (hblank : Text.allBlank b.value = false)
    (hkept : Variable.isLocalization b.value ∨ relative = false ∧ isLong wildcards false b.value
      ∨ relative = true ∧ Normal wildcards b.value) (loc : Location) (u : SourceUnit) :
    (SourceUnit.readAttribute (longName wildcards relative) loc b u).1 = .valid b.value := by
  obtain ⟨hb, -⟩ | ⟨-, ⟨-, h⟩ | ⟨hloc, hname⟩⟩ := longName_cases wildcards relative b
  · simp [hblank] at hb
  · rw [h.eq]
  · obtain hl | ⟨rfl, hlong⟩ | ⟨rfl, hnormal⟩ := hkept
    · simp [hloc] at hl
    · obtain ⟨hnone, -⟩ | ⟨name, hname, ⟨-, h⟩ | ⟨hshort, -⟩⟩ := hname
      · cases hnone
      · cases hname
        rw [h.eq]
      · cases hname
        simp [hlong] at hshort
    · exact (path_valid_iff hblank hloc).2 ⟨hnormal.not_escapes, hnormal, fun _ => rfl⟩

/-- What was read as a name and is not blank is read as that name. -/
theorem longName_valid_again
    (hvalid : (SourceUnit.readAttribute (longName wildcards relative) loc a u).1 = .valid b.value)
    (hblank : Text.allBlank b.value = false) (loc' : Location) (w : SourceUnit) :
    (SourceUnit.readAttribute (longName wildcards relative) loc' b w).1 = .valid b.value := by
  refine longName_valid_self hblank ?_ loc' w
  obtain ⟨-, ⟨heq, hloc | hname⟩ | ⟨hrelative, hnormal, -⟩⟩ := longName_valid hvalid
  · exact .inl (heq ▸ hloc)
  · exact .inr (.inl hname)
  · exact .inr (.inr ⟨hrelative, hnormal⟩)

/-- What was read as a name is blank only where a path came to it. -/
theorem allBlank_iff_of_valid
    (hvalid : (SourceUnit.readAttribute (longName wildcards relative) loc a u).1 = .valid r) :
    Text.allBlank r ↔ relative = true ∧ isBlankPath a.value := by
  obtain ⟨hblank, ⟨rfl, hkept⟩ | ⟨rfl, hnormal, hwalk⟩⟩ := longName_valid hvalid
  · rw [hblank]
    refine iff_of_false Bool.false_ne_true ?_
    rintro ⟨rfl, hpath⟩
    obtain ⟨hone, hplain⟩ := Variable.segments_of_isLocalization (hkept.resolve_right (by simp))
    rw [isBlankPath, hone, walk_plain _ _ hplain] at hpath
    exact absurd hpath (by simpa [walk, Text.allBlank] using hblank)
  · rw [← hnormal.isBlankPath_iff, isBlankPath, isBlankPath, hwalk]
    simp

/-- If the value of `b` is what was read from `a`, it is read from `b`, without an error. The one
exception are paths that lead to a single blank name: that name is refused for being empty. -/
theorem readAttribute_longName_again (wildcards relative : Bool) (loc loc' : Location)
    (a b : Attribute) (u w : SourceUnit)
    (h : (SourceUnit.readAttribute (longName wildcards relative) loc a u).1 = .valid b.value) :
    (¬ (relative = true ∧ isBlankPath a.value) → ∃ reports,
        SourceUnit.readAttribute (longName wildcards relative) loc' b w
            = (.valid b.value, w.withReports reports)
          ∧ ∀ d ∈ reports, d.isError = false)
      ∧ (relative = true ∧ isBlankPath a.value → ∃ d,
        SourceUnit.readAttribute (longName wildcards relative) loc' b w
            = (.placeholder "", w.withReports [d])
          ∧ d.isError ∧ d.code.map Code.text = some "E001") := by
  rw [← allBlank_iff_of_valid h]
  constructor
  · intro hblank
    have hagain := longName_valid_again h (by simpa using hblank) loc' w
    obtain ⟨odd, haccepts⟩ := (ends_longName wildcards relative b).accepts_of_valid hagain
    refine ⟨_, haccepts.eq loc' w, fun d hd => ?_⟩
    obtain ⟨o, -, rfl⟩ := List.mem_map.1 hd
    rfl
  · intro hblank
    obtain ⟨-, hrefuses⟩ | ⟨hnot, -⟩ := longName_cases wildcards relative b
    · exact ⟨_, hrefuses.eq loc' w, rfl, rfl⟩
    · simp [hblank] at hnot

section Again

/-- A path whose normal form looks like a generated short name. -/
def roundabout : Attribute :=
  ⟨⟨none, "File"⟩, ⟨none, "Source"⟩, "./bin/obj/..\\PROGRA~1/"⟩

/-- A path to a name of a single space. -/
def blankPath : Attribute :=
  ⟨⟨none, "File"⟩, ⟨none, "Source"⟩, "./ "⟩

theorem readAttribute_longName_again_paths :
    let u : SourceUnit := { catalog := Catalog.empty, content := { id := "Main" } }
    let b : Attribute := { roundabout with value := "bin\\PROGRA~1" }
    let space : Attribute := { blankPath with value := " " }
    (∃ reports, SourceUnit.readAttribute (longName false true) ⟨"setup.xml", some 2⟩ b u
          = (.valid b.value, u.withReports reports)
        ∧ ∀ d ∈ reports, d.isError = false)
      ∧ ∃ d, SourceUnit.readAttribute (longName false true) ⟨"setup.xml", some 2⟩ space u
          = (.placeholder "", u.withReports [d])
        ∧ d.isError ∧ d.code.map Code.text = some "E001" := by
  intro u b space
  have hread : (SourceUnit.readAttribute (longName false true) ⟨"setup.xml", some 1⟩ roundabout
      u).1 = .valid b.value := by
    decide +kernel
  have hspace : (SourceUnit.readAttribute (longName false true) ⟨"setup.xml", some 1⟩ blankPath
      u).1 = .valid space.value := by
    decide +kernel
  exact ⟨(readAttribute_longName_again false true ⟨"setup.xml", some 1⟩ ⟨"setup.xml", some 2⟩
      roundabout b u u hread).1 (by decide +kernel),
    (readAttribute_longName_again false true ⟨"setup.xml", some 1⟩ ⟨"setup.xml", some 2⟩
      blankPath space u u hspace).2 (by decide +kernel)⟩

/-- The name of a single space is read from a path, and is then refused. -/
theorem readAttribute_longName_blankPath :
    let u : SourceUnit := { catalog := Catalog.empty, content := { id := "Main" } }
    let b : Attribute := { blankPath with value := " " }
    (SourceUnit.readAttribute (longName false true) ⟨"setup.xml", some 1⟩ blankPath u).1
        = .valid b.value
      ∧ (SourceUnit.readAttribute (longName false true) ⟨"setup.xml", some 2⟩ b u).1
        = .placeholder ""
      ∧ (SourceUnit.readAttribute (longName false true) ⟨"setup.xml", some 2⟩ b u).2.anyError := by
  decide +kernel

end Again

end Coercion

end InstallerAnalysis
