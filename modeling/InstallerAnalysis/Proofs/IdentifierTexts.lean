import InstallerAnalysis.Proofs.CoercionReports
import InstallerAnalysis.Proofs.Trimming
import InstallerAnalysis.Proofs.VariableReferences

/-!
# The texts of identifiers

`Writes` says how an identifier is written: alone, or after a keyword for its access, one space and
any blanks. No keyword holds a space, so the first one ends it (`splitKeyword_append`), and no
identifier holds a blank, so that dropping the blanks around it leaves it whole. Reading accepts
exactly these texts (`outcome_identifier_eq_valid_iff`).
-/

namespace InstallerAnalysis

namespace Access

/-- The keywords that authors may write for an access. -/
def IsKeyword (keyword : String) : Access → Prop
  | .package => keyword ∈ ["global", "package"]
  | .library => keyword ∈ ["public", "internal", "library"]
  | .fragment => keyword ∈ ["private", "protected", "file", "fragment", "section"]

variable {keyword : String} {access : Access}

theorem mem_keywords (h : ofKeyword? keyword = some access) : (keyword, access) ∈ keywords := by
  obtain ⟨before, after, heq, -⟩ := List.lookup_eq_some_iff.1 h
  rw [heq]
  exact List.mem_append_right _ List.mem_cons_self

theorem ofKeyword?_eq_some_iff : ofKeyword? keyword = some access ↔ access.IsKeyword keyword := by
  constructor
  · intro h
    have hmem := mem_keywords h
    simp only [keywords, List.mem_cons, Prod.mk.injEq, List.not_mem_nil, or_false] at hmem
    rcases hmem with ⟨rfl, rfl⟩ | ⟨rfl, rfl⟩ | ⟨rfl, rfl⟩ | ⟨rfl, rfl⟩ | ⟨rfl, rfl⟩ | ⟨rfl, rfl⟩
      | ⟨rfl, rfl⟩ | ⟨rfl, rfl⟩ | ⟨rfl, rfl⟩ | ⟨rfl, rfl⟩ <;> simp [IsKeyword]
  · have hall : (∀ k ∈ ["global", "package"], ofKeyword? k = some .package)
        ∧ (∀ k ∈ ["public", "internal", "library"], ofKeyword? k = some .library)
        ∧ ∀ k ∈ ["private", "protected", "file", "fragment", "section"],
          ofKeyword? k = some .fragment := by decide
    cases access with
    | package => exact hall.1 keyword
    | library => exact hall.2.1 keyword
    | fragment => exact hall.2.2 keyword

theorem not_mem_of_ofKeyword? (h : ofKeyword? keyword = some access) : ' ' ∉ keyword.toList := by
  have hall : ∀ entry ∈ keywords, ' ' ∉ entry.1.toList := by decide
  exact hall _ (mem_keywords h)

/-- The keyword that is written for an access is one of those that are read as it. -/
theorem isKeyword_text (access : Access) : access.IsKeyword access.text := by
  cases access <;> simp [IsKeyword, text]

end Access

namespace Identifier

/-- The text is an identifier, or it is a keyword, a space, and an identifier with blanks around it
or without. -/
inductive Writes : String → Identifier → Prop
  | alone {id : String} : IsName id.toList → Writes id ⟨.fragment, id⟩
  | after {keyword rest id : String} {access : Access} : access.IsKeyword keyword →
      Text.Padded rest.toList id.toList → IsName id.toList →
      Writes (keyword ++ " " ++ rest) ⟨access, id⟩

theorem isBlank_of_isChar {c : Char} (h : isChar c) : Text.isBlank c = false := by
  have hrange : 33 ≤ c.toNat ∧ c.toNat ≤ 126 := by
    simp only [isChar, Text.isAsciiLetter, Text.isAsciiDigit, Bool.or_eq_true, Bool.and_eq_true,
      decide_eq_true_eq, Char.le_def, UInt32.le_iff_toNat_le] at h
    rcases h with (((⟨hlow, hhigh⟩ | ⟨hlow, hhigh⟩) | ⟨hlow, hhigh⟩) | rfl) | rfl
    · exact ⟨Nat.le_trans (by decide) hlow, Nat.le_trans hhigh (by decide)⟩
    · exact ⟨Nat.le_trans (by decide) hlow, Nat.le_trans hhigh (by decide)⟩
    · exact ⟨Nat.le_trans (by decide) hlow, Nat.le_trans hhigh (by decide)⟩
    · decide
    · decide
  exact Text.isBlank_of_range hrange

theorem IsName.isBlank {name : List Char} (h : IsName name) :
    ∀ c ∈ name, Text.isBlank c = false :=
  fun c hc => isBlank_of_isChar (isChar_of_isLegalText (isLegalText_iff.2 h) c hc)

theorem IsName.not_mem {name : List Char} (h : IsName name) : ' ' ∉ name :=
  fun hmem => absurd (h.isBlank _ hmem) (by decide)

/-- What an identifier is written as has an identifier in it. -/
theorem Writes.isName {s : String} {i : Identifier} (h : Writes s i) : IsName i.id.toList := by
  cases h <;> assumption

theorem Writes.allBlank_eq_false {s : String} {i : Identifier} (h : Writes s i) :
    Text.allBlank s = false := by
  obtain ⟨first, others, hid, -⟩ := h.isName
  have hfirst : Text.isBlank first = false := h.isName.isBlank first (by simp [hid])
  have hmem : first ∈ s.toList := by
    cases h with
    | alone => simp [hid]
    | after _ hpadded _ =>
      obtain ⟨before, after, heq, -⟩ := hpadded
      simp [heq, hid]
  exact List.all_eq_false.2 ⟨first, hmem, by simp [hfirst]⟩

end Identifier

namespace Coercion

open Identifier (Writes IsName)

variable {a : Attribute} {s keyword rest : String} {i : Identifier}

theorem splitKeyword_of_not_mem (h : ' ' ∉ s.toList) : splitKeyword s = none := by
  have hnone : s.toList.dropWhile (· ≠ ' ') = [] := by
    rw [List.dropWhile_eq_nil_iff]
    intro c hc
    exact decide_eq_true fun heq => h (heq ▸ hc)
  rw [splitKeyword, hnone]

theorem splitKeyword_append (h : ' ' ∉ keyword.toList) :
    splitKeyword (keyword ++ " " ++ rest) = some (keyword, Text.trim rest) := by
  have hclear : ∀ c ∈ keyword.toList, decide (c ≠ ' ') :=
    fun c hc => decide_eq_true fun heq => h (heq ▸ hc)
  have htext : (keyword ++ " " ++ rest).toList = keyword.toList ++ ' ' :: rest.toList := by simp
  have htake : (keyword ++ " " ++ rest).toList.takeWhile (· ≠ ' ') = keyword.toList := by
    rw [htext, List.takeWhile_append_of_pos hclear, List.takeWhile_cons_of_neg (by simp),
      List.append_nil]
  have hdrop : (keyword ++ " " ++ rest).toList.dropWhile (· ≠ ' ') = ' ' :: rest.toList := by
    rw [htext, List.dropWhile_append_of_pos hclear, List.dropWhile_cons_of_neg (by simp)]
  simp only [splitKeyword, hdrop, htake, String.ofList_toList, Text.trim]

/-- A text with a space has a first one. -/
theorem exists_eq_append_of_mem (h : ' ' ∈ s.toList) :
    ∃ keyword rest : String, s = keyword ++ " " ++ rest ∧ ' ' ∉ keyword.toList := by
  obtain ⟨before, after, heq, hnot⟩ := List.eq_append_cons_of_mem h
  refine ⟨String.ofList before, String.ofList after, ?_, by rwa [String.toList_ofList]⟩
  rw [← String.toList_inj, heq]
  simp

theorem readAccess_eq_ok_iff {access : Access} {id : String} : readAccess s = .ok (access, id)
    ↔ ' ' ∉ s.toList ∧ access = .fragment ∧ id = s
      ∨ ∃ keyword rest, access.IsKeyword keyword ∧ s = keyword ++ " " ++ rest
        ∧ id = Text.trim rest := by
  constructor
  · intro h
    by_cases hspace : ' ' ∈ s.toList
    · obtain ⟨keyword, rest, rfl, hkeyword⟩ := exists_eq_append_of_mem hspace
      simp only [readAccess, splitKeyword_append hkeyword] at h
      rcases haccess : Access.ofKeyword? keyword with _ | found <;> rw [haccess] at h <;> cases h
      exact .inr ⟨keyword, rest, Access.ofKeyword?_eq_some_iff.1 haccess, rfl, rfl⟩
    · simp only [readAccess, splitKeyword_of_not_mem hspace, Except.ok.injEq, Prod.mk.injEq] at h
      exact .inl ⟨hspace, h.1.symm, h.2.symm⟩
  · rintro (⟨hspace, rfl, rfl⟩ | ⟨keyword, rest, hkeyword, rfl, rfl⟩)
    · simp only [readAccess, splitKeyword_of_not_mem hspace]
    · have haccess := Access.ofKeyword?_eq_some_iff.2 hkeyword
      simp only [readAccess, splitKeyword_append (Access.not_mem_of_ofKeyword? haccess), haccess]

/-- The access and the name that an identifier is written with are found again. -/
theorem readAccess_of_writes (h : Writes s i) : readAccess s = .ok (i.access, i.id) := by
  rw [readAccess_eq_ok_iff]
  cases h with
  | alone hname => exact .inl ⟨hname.not_mem, rfl, rfl⟩
  | @after keyword rest id access hkeyword hpadded hname =>
    refine .inr ⟨keyword, rest, hkeyword, rfl, ?_⟩
    rw [Text.trim, Text.strip_eq_iff.2 ⟨hpadded, Text.tight_of_forall hname.isBlank⟩,
      String.ofList_toList]

theorem writes_of_readAccess {access : Access} {id : String}
    (h : readAccess s = .ok (access, id)) (hlegal : Identifier.isLegal id) :
    Writes s ⟨access, id⟩ := by
  have hname : IsName id.toList := Identifier.isLegalText_iff.1 hlegal
  obtain ⟨-, rfl, rfl⟩ | ⟨keyword, rest, hkeyword, rfl, rfl⟩ := readAccess_eq_ok_iff.1 h
  · exact .alone hname
  · refine .after hkeyword ?_ hname
    rw [Text.trim, String.toList_ofList]
    exact Text.padded_strip _

/-- Reading accepts the texts of identifiers, with a warning if the name is long. -/
theorem accepts_identifier_of_writes (h : Writes a.value i) : identifier.Accepts a i
    (if Identifier.maxLength < i.id.length then some (.longIdentifier i.id) else none) := by
  have hlegal : Identifier.isLegal i.id := Identifier.isLegalText_iff.2 h.isName
  have haccess := readAccess_of_writes h
  obtain ⟨hblank, -⟩ | ⟨-, ⟨fault, hread, -⟩ | ⟨access, id, hread, hid⟩⟩ := identifier_cases a
  · simp [h.allBlank_eq_false] at hblank
  · rw [haccess] at hread
    cases hread
  · rw [haccess] at hread
    cases hread
    obtain ⟨hillegal, -⟩ | ⟨-, haccepts⟩ := hid
    · simp [hlegal] at hillegal
    · exact haccepts

/-- Other texts are refused. -/
theorem refuses_identifier_of_not_writes (h : ∀ i, ¬ Writes a.value i) :
    ∃ fault, identifier.Refuses a Identifier.placeholder fault := by
  obtain ⟨-, hrefuses⟩ | ⟨-, ⟨fault, -, hrefuses⟩ | ⟨access, id, hread, hid⟩⟩ :=
    identifier_cases a
  · exact ⟨_, hrefuses⟩
  · exact ⟨_, hrefuses⟩
  · obtain ⟨-, hrefuses⟩ | ⟨hlegal, -⟩ := hid
    · exact ⟨_, hrefuses⟩
    · exact absurd (writes_of_readAccess hread hlegal) (h _)

theorem identifier_valid_iff {loc : Location} {u : SourceUnit} :
    (SourceUnit.readAttribute identifier loc a u).1 = .valid i ↔ Writes a.value i := by
  constructor
  · intro hvalid
    by_cases h : ∃ j, Writes a.value j
    · obtain ⟨j, hj⟩ := h
      rw [(accepts_identifier_of_writes hj).eq] at hvalid
      cases hvalid
      exact hj
    · obtain ⟨fault, hrefuses⟩ := refuses_identifier_of_not_writes (not_exists.1 h)
      rw [hrefuses.eq] at hvalid
      cases hvalid
  · intro h
    rw [(accepts_identifier_of_writes h).eq]

/-- An attribute is read as an identifier exactly if its text is written so, and an identifier is
read back from the keyword of its access, a space and its name exactly if the name is of the
grammar. Names of more than 72 characters are reported, with a warning, and no others. -/
theorem readAttribute_identifier :
    (∀ loc (a : Attribute) u, ∃ outcome reports, SourceUnit.readAttribute identifier loc a u
        = (outcome, u.withReports reports)
      ∧ (∀ i, outcome = .valid i ↔ Writes a.value i)
      ∧ reports.length ≤ 1
      ∧ ((∃ d ∈ reports, d.isWarning ∧ d.code.map Code.text = some "W001")
        ↔ ∃ i, outcome = .valid i ∧ 72 < i.id.length))
      ∧ ∀ loc (a : Attribute) u i, (SourceUnit.readAttribute identifier loc
          { a with value := i.access.text ++ " " ++ i.id } u).1 = .valid i
        ↔ IsName i.id.toList := by
  constructor
  · intro loc a u
    have hvalid : ∀ i, (SourceUnit.readAttribute identifier loc a u).1 = .valid i
        ↔ Writes a.value i := fun _ => identifier_valid_iff
    by_cases h : ∃ i, Writes a.value i
    · obtain ⟨i, hi⟩ := h
      rw [(accepts_identifier_of_writes hi).eq] at hvalid ⊢
      refine ⟨_, _, rfl, hvalid, ?_⟩
      simp only [Outcome.valid.injEq, exists_eq_left']
      by_cases hlong : Identifier.maxLength < i.id.length
      · rw [if_pos hlong]
        exact ⟨le_rfl, iff_of_true ⟨_, List.mem_cons_self, rfl, rfl⟩ hlong⟩
      · rw [if_neg hlong]
        exact ⟨Nat.zero_le _, iff_of_false (by simp) hlong⟩
    · obtain ⟨fault, hrefuses⟩ := refuses_identifier_of_not_writes (not_exists.1 h)
      rw [hrefuses.eq] at hvalid ⊢
      refine ⟨_, _, rfl, hvalid, le_rfl, iff_of_false ?_ (by simp)⟩
      simp [Problem.report, Problem.severity, Diagnostic.isWarning]
  · intro loc a u i
    rw [identifier_valid_iff]
    refine ⟨fun h => h.isName, fun h => ?_⟩
    exact .after i.access.isKeyword_text (Text.padded_self _) h

end Coercion

end InstallerAnalysis
