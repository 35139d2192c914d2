import InstallerAnalysis.Proofs.SynthesizedIdentifier
import InstallerAnalysis.Variable

/-!
# The grammar of variable references

`Spells` says which text a reference is written as. The letters of the namespace end at the first
period, and the characters of the name at the parenthesis, so that a text spells one reference at
most. Reading finds it (`parse?_eq_some_iff`), and each kind of reference is the texts with one of a
few beginnings (`spells_iff_eq_append`).
-/

namespace InstallerAnalysis

namespace Text

theorem isAsciiLetter_eq (c : Char) : isAsciiLetter c = c.isAlpha := by
  have hupper : c.isUpper = (decide ('A' ≤ c) && decide (c ≤ 'Z')) := Bool.decide_and _ _
  have hlower : c.isLower = (decide ('a' ≤ c) && decide (c ≤ 'z')) := rfl
  show isAsciiLetter c = (c.isUpper || c.isLower)
  rw [isAsciiLetter, hupper, hlower, Bool.or_comm]

theorem isAsciiDigit_eq (c : Char) : isAsciiDigit c = c.isDigit := by
  simp only [isAsciiDigit, Char.isDigit, Char.le_def, ge_iff_le]

end Text

/-- A letter or underscore, and then letters, digits, underscores and periods. -/
def Identifier.IsName (name : List Char) : Prop :=
  ∃ first rest, name = first :: rest ∧ (first.isAlpha ∨ first = '_')
    ∧ ∀ c ∈ rest, c.isAlphanum ∨ c = '_' ∨ c = '.'

theorem Identifier.isLegalText_iff {name : List Char} : isLegalText name ↔ IsName name := by
  unfold IsName
  rcases name with _ | ⟨first, rest⟩
  · simp [isLegalText]
  · simp [isLegalText, isStartChar, isChar, Text.isAsciiLetter_eq, Text.isAsciiDigit_eq,
      Char.isAlphanum, or_assoc]

namespace Variable

open Identifier (IsName)

/-- The text is a sigil, and in parentheses a namespace of letters, a period and a name. -/
structure Spells (s : String) (r : Reference) : Prop where
  text : s.toList = r.sigil.char :: '(' :: r.space ++ '.' :: r.name ++ [')']
  space : r.space ≠ [] ∧ r.space.all Char.isAlpha
  name : IsName r.name

theorem Sigil.ofChar?_eq_some_iff {c : Char} {sigil : Sigil} :
    Sigil.ofChar? c = some sigil ↔ sigil.char = c := by
  constructor
  · intro h
    simpa using List.find?_some h
  · rintro rfl
    cases sigil <;> rfl

namespace Reference

variable {cs tail name : List Char} {r : Reference} {s : String}

theorem closeName?_eq_some_iff :
    closeName? tail = some name ↔ tail = name ++ [')'] ∧ Identifier.isLegalText name := by
  unfold closeName?
  constructor
  · intro h
    dsimp only at h
    split_ifs at h with hclose
    cases h
    simp only [Bool.and_eq_true, decide_eq_true_eq] at hclose
    exact ⟨by rw [← hclose.2, List.takeWhile_append_dropWhile], hclose.1⟩
  · rintro ⟨rfl, hname⟩
    have hchars := Identifier.isChar_of_isLegalText hname
    have htake : (name ++ [')']).takeWhile Identifier.isChar = name := by
      rw [List.takeWhile_append_of_pos hchars, List.takeWhile_cons_of_neg (by decide),
        List.append_nil]
    have hdrop : (name ++ [')']).dropWhile Identifier.isChar = [')'] := by
      rw [List.dropWhile_append_of_pos hchars, List.dropWhile_cons_of_neg (by decide)]
    simp [htake, hdrop, hname]

theorem read?_eq_some_iff : read? cs = some r ↔ cs = r.render ∧ r.space ≠ []
    ∧ (∀ c ∈ r.space, Text.isAsciiLetter c) ∧ Identifier.isLegalText r.name := by
  constructor
  · intro h
    unfold read? at h
    split at h
    · rename_i c rest
      obtain ⟨sigil, hsigil, h⟩ := Option.bind_eq_some_iff.1 h
      split at h
      · cases h
      · rename_i tail hdrop hne
        obtain ⟨name, hname, rfl⟩ := Option.map_eq_some_iff.1 h
        obtain ⟨rfl, hlegal⟩ := closeName?_eq_some_iff.1 hname
        refine ⟨?_, hne, fun c hc => List.mem_takeWhile_imp hc, hlegal⟩
        have hrest := rest.takeWhile_append_dropWhile (p := Text.isAsciiLetter)
        rw [hdrop] at hrest
        simp [render, Sigil.ofChar?_eq_some_iff.1 hsigil, hrest]
      · cases h
    · cases h
  · rintro ⟨rfl, hne, hletters, hname⟩
    obtain ⟨sigil, space, name⟩ := r
    have htake : (space ++ '.' :: (name ++ [')'])).takeWhile Text.isAsciiLetter = space := by
      rw [List.takeWhile_append_of_pos hletters, List.takeWhile_cons_of_neg (by decide),
        List.append_nil]
    have hdrop : (space ++ '.' :: (name ++ [')'])).dropWhile Text.isAsciiLetter
        = '.' :: (name ++ [')']) := by
      rw [List.dropWhile_append_of_pos hletters, List.dropWhile_cons_of_neg (by decide)]
    have hrender : render ⟨sigil, space, name⟩
        = sigil.char :: '(' :: (space ++ '.' :: (name ++ [')'])) := by simp [render]
    rw [hrender]
    rcases space with _ | ⟨first, others⟩
    · exact absurd rfl hne
    · simp only [read?, Sigil.ofChar?_eq_some_iff.2 rfl, htake, hdrop,
        closeName?_eq_some_iff.2 ⟨rfl, hname⟩, Option.bind_eq_bind, Option.bind_some,
        Option.map_some]

/-- Reading finds what a text spells. -/
theorem parse?_eq_some_iff : parse? s = some r ↔ Spells s r := by
  simp only [parse?, read?_eq_some_iff, Identifier.isLegalText_iff, Text.isAsciiLetter_eq,
    ← List.all_eq_true]
  constructor
  · rintro ⟨htext, hne, hletters, hname⟩
    exact ⟨htext, ⟨hne, hletters⟩, hname⟩
  · rintro ⟨htext, ⟨hne, hletters⟩, hname⟩
    exact ⟨htext, hne, hletters, hname⟩

theorem any_parse?_iff {p : Reference → Bool} : (parse? s).any p ↔ ∃ r, Spells s r ∧ p r := by
  simp only [Option.any_eq_true, ← parse?_eq_some_iff]

end Reference

variable {s : String} {sigil : Sigil} {space name : List Char}

theorem Spells.unique {r r' : Reference} (h : Spells s r) (h' : Spells s r') : r = r' := by
  rw [← Reference.parse?_eq_some_iff] at h h'
  exact Option.some.inj (h.symm.trans h')

/-- A sigil and a namespace of letters make the beginning of a text, which a name completes. -/
theorem spells_iff_eq_append (start : String) (hspace : space ≠ [] ∧ space.all Char.isAlpha)
    (hstart : start.toList = sigil.char :: '(' :: space ++ ['.']) :
    Spells s ⟨sigil, space, name⟩ ↔ IsName name ∧ s = start ++ String.ofList name ++ ")" := by
  have htext : s = start ++ String.ofList name ++ ")"
      ↔ s.toList = sigil.char :: '(' :: space ++ '.' :: name ++ [')'] := by
    rw [← String.toList_inj, String.toList_append, String.toList_append, hstart]
    simp
  rw [htext]
  exact ⟨fun h => ⟨h.name, h.text⟩, fun h => ⟨h.2, hspace, h.1⟩⟩

theorem isLocalization_iff :
    isLocalization s ↔ ∃ name, IsName name ∧ s = "!(loc." ++ String.ofList name ++ ")" := by
  rw [isLocalization, Reference.any_parse?_iff]
  constructor
  · rintro ⟨⟨sigil, space, name⟩, h, hkind⟩
    simp only [Reference.isLocalization, Bool.and_eq_true, decide_eq_true_eq] at hkind
    obtain ⟨rfl, rfl⟩ := hkind
    exact ⟨name, (spells_iff_eq_append "!(loc." (by decide) rfl).1 h⟩
  · rintro ⟨name, h⟩
    exact ⟨⟨.bang, "loc".toList, name⟩, (spells_iff_eq_append "!(loc." (by decide) rfl).2 h,
      by simp [Reference.isLocalization]⟩

theorem isDeferred_iff : isDeferred s ↔ ∃ name, IsName name
    ∧ (s = "!(loc." ++ String.ofList name ++ ")" ∨ s = "$(loc." ++ String.ofList name ++ ")"
      ∨ s = "!(wix." ++ String.ofList name ++ ")") := by
  rw [isDeferred, Reference.any_parse?_iff]
  constructor
  · rintro ⟨⟨sigil, space, name⟩, h, hkind⟩
    simp only [Reference.isDeferred, Bool.or_eq_true, Bool.and_eq_true, decide_eq_true_eq] at hkind
    rcases hkind with rfl | ⟨rfl, rfl⟩
    · cases sigil with
      | bang =>
        obtain ⟨hname, hs⟩ := (spells_iff_eq_append "!(loc." (by decide) rfl).1 h
        exact ⟨name, hname, .inl hs⟩
      | dollar =>
        obtain ⟨hname, hs⟩ := (spells_iff_eq_append "$(loc." (by decide) rfl).1 h
        exact ⟨name, hname, .inr (.inl hs)⟩
    · obtain ⟨hname, hs⟩ := (spells_iff_eq_append "!(wix." (by decide) rfl).1 h
      exact ⟨name, hname, .inr (.inr hs)⟩
  · rintro ⟨name, hname, hs | hs | hs⟩
    · exact ⟨⟨.bang, "loc".toList, name⟩,
        (spells_iff_eq_append "!(loc." (by decide) rfl).2 ⟨hname, hs⟩, rfl⟩
    · exact ⟨⟨.dollar, "loc".toList, name⟩,
        (spells_iff_eq_append "$(loc." (by decide) rfl).2 ⟨hname, hs⟩, rfl⟩
    · exact ⟨⟨.bang, "wix".toList, name⟩,
        (spells_iff_eq_append "!(wix." (by decide) rfl).2 ⟨hname, hs⟩, rfl⟩

theorem isBinder_iff : isBinder s ↔ ∃ name, IsName name
    ∧ (s = "!(bind." ++ String.ofList name ++ ")" ∧ '.' ∈ name
      ∨ s = "!(bindpath." ++ String.ofList name ++ ")") := by
  rw [isBinder, Reference.any_parse?_iff]
  constructor
  · rintro ⟨⟨sigil, space, name⟩, h, hkind⟩
    simp only [Reference.isBinder, Bool.or_eq_true, Bool.and_eq_true, decide_eq_true_eq,
      List.contains_iff_mem] at hkind
    obtain ⟨rfl, ⟨rfl, hdot⟩ | rfl⟩ := hkind
    · obtain ⟨hname, hs⟩ := (spells_iff_eq_append "!(bind." (by decide) rfl).1 h
      exact ⟨name, hname, .inl ⟨hs, hdot⟩⟩
    · obtain ⟨hname, hs⟩ := (spells_iff_eq_append "!(bindpath." (by decide) rfl).1 h
      exact ⟨name, hname, .inr hs⟩
  · rintro ⟨name, hname, ⟨hs, hdot⟩ | hs⟩
    · exact ⟨⟨.bang, "bind".toList, name⟩,
        (spells_iff_eq_append "!(bind." (by decide) rfl).2 ⟨hname, hs⟩,
        by simp [Reference.isBinder, hdot]⟩
    · exact ⟨⟨.bang, "bindpath".toList, name⟩,
        (spells_iff_eq_append "!(bindpath." (by decide) rfl).2 ⟨hname, hs⟩,
        by simp [Reference.isBinder]⟩

/-- The two kinds have no namespace in common, and a text has only one. -/
theorem not_isDeferred_and_isBinder : ¬ (isDeferred s ∧ isBinder s) := by
  simp only [isDeferred, isBinder, Reference.any_parse?_iff]
  rintro ⟨⟨r, hr, hdeferred⟩, r', hr', hbinder⟩
  obtain rfl := hr.unique hr'
  simp only [Reference.isDeferred, Reference.isBinder, Bool.or_eq_true, Bool.and_eq_true,
    decide_eq_true_eq] at hdeferred hbinder
  rcases hdeferred with h | ⟨-, h⟩ <;> simp [h] at hbinder

/-- A text is read as a reference exactly if it spells it, and it spells one at most. So the kinds
of references are the texts of their forms, and no text is both deferred and a binder variable. -/
theorem references_exact (s : String) :
    (∀ r, Reference.parse? s = some r ↔ Spells s r)
      ∧ (∀ r r', Spells s r → Spells s r' → r = r')
      ∧ (isLocalization s ↔ ∃ name, IsName name ∧ s = "!(loc." ++ String.ofList name ++ ")")
      ∧ (isDeferred s ↔ ∃ name, IsName name
        ∧ (s = "!(loc." ++ String.ofList name ++ ")" ∨ s = "$(loc." ++ String.ofList name ++ ")"
          ∨ s = "!(wix." ++ String.ofList name ++ ")"))
      ∧ (isBinder s ↔ ∃ name, IsName name
        ∧ (s = "!(bind." ++ String.ofList name ++ ")" ∧ '.' ∈ name
          ∨ s = "!(bindpath." ++ String.ofList name ++ ")"))
      ∧ ¬ (isDeferred s ∧ isBinder s) :=
  ⟨fun _ => Reference.parse?_eq_some_iff, fun _ _ => Spells.unique, isLocalization_iff,
    isDeferred_iff, isBinder_iff, not_isDeferred_and_isBinder⟩

end Variable

end InstallerAnalysis
