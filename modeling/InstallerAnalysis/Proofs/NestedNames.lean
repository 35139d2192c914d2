import InstallerAnalysis.Proofs.ShortNames

/-!
# Short names, long names and paths are nested

A short name is a stem, or a stem and an extension with a period between them (`ShortForm`). Either
part holds only characters that long names may hold, and the stem is more than periods, so a short
name is a long name. A text without separators is a path of one segment, and that segment is legal
if it is a long name, `.` or `..` (`isRelativePath_of_no_separator`). Long names have no separators,
so they are the paths of this kind other than `.` and `..`. What is legal without wildcards is legal
with them, since that is so for each character.
-/

namespace InstallerAnalysis.Filename

/-- A part of a short name: short characters other than periods, at least one and no more than the
limit. -/
structure IsPart (wildcards : Bool) (limit : Nat) (cs : List Char) : Prop where
  ne_nil : cs ≠ []
  length_le : cs.length ≤ limit
  no_period : '.' ∉ cs
  short : ∀ c ∈ cs, isShortChar wildcards c

/-- A stem, with or without an extension. -/
inductive ShortForm (wildcards : Bool) : List Char → Prop
  | bare {stem} : IsPart wildcards maxStem stem → ShortForm wildcards stem
  | dotted {stem extension} : IsPart wildcards maxStem stem →
      IsPart wildcards maxExtension extension → ShortForm wildcards (stem ++ '.' :: extension)

variable {wildcards : Bool} {limit : Nat} {cs stem extension : List Char} {c : Char} {s : String}

/-! ## Characters -/

theorem not_isSeparator_of_class {p : Char → Bool} (hback : p '\\' = false) (hslash : p '/' = false)
    (h : p c) : isSeparator c = false := by
  by_contra hsep
  simp only [isSeparator, Bool.not_eq_false, Bool.or_eq_true, decide_eq_true_eq] at hsep
  rcases hsep with rfl | rfl
  · simp [hback] at h
  · simp [hslash] at h

/-- Separators are reserved, and no wildcards. -/
theorem not_isSeparator_of_isAllowed (h : isAllowed wildcards c) : isSeparator c = false :=
  not_isSeparator_of_class (by cases wildcards <;> rfl) (by cases wildcards <;> rfl) h

theorem forall_not_isSeparator_iff :
    (∀ c ∈ cs, isSeparator c = false) ↔ '\\' ∉ cs ∧ '/' ∉ cs := by
  simp [isSeparator, forall_and, List.forall_mem_ne']

theorem not_isControl_of_isGraphic (h : isGraphic c) : Text.isControl c = false := by
  simp only [isGraphic, Bool.and_eq_true, decide_eq_true_eq] at h
  simp only [Text.isControl, Bool.or_eq_false_iff, Bool.and_eq_false_iff, decide_eq_false_iff_not]
  omega

/-! ## The form of short names -/

theorem splitExtension_append (h : '.' ∉ stem) :
    splitExtension (stem ++ '.' :: extension) = (stem, some extension) := by
  have hclear := ne_period_of_not_mem h
  have hdrop : (stem ++ '.' :: extension).dropWhile (· ≠ '.') = '.' :: extension := by
    rw [List.dropWhile_append_of_pos hclear, List.dropWhile_cons_of_neg (by simp)]
  have htake : (stem ++ '.' :: extension).takeWhile (· ≠ '.') = stem := by
    rw [List.takeWhile_append_of_pos hclear, List.takeWhile_cons_of_neg (by simp), List.append_nil]
  rw [splitExtension, hdrop, htake]

theorem isShortText_bare (h : '.' ∉ stem) :
    isShortText wildcards stem ↔ IsPart wildcards maxStem stem := by
  simp only [isShortText, splitExtension_of_not_mem h, Option.all_none, Bool.and_true,
    Bool.and_eq_true, decide_eq_true_eq, List.all_eq_true]
  exact ⟨fun hs => ⟨hs.1.1, hs.1.2, h, hs.2⟩, fun hs => ⟨⟨hs.ne_nil, hs.length_le⟩, hs.short⟩⟩

theorem isShortText_dotted (h : '.' ∉ stem) : isShortText wildcards (stem ++ '.' :: extension)
    ↔ IsPart wildcards maxStem stem ∧ IsPart wildcards maxExtension extension := by
  rw [← isShortText_bare h]
  simp only [isShortText, splitExtension_of_not_mem h, splitExtension_append h, Option.all_none,
    Option.all_some, Bool.and_true, Bool.and_eq_true, decide_eq_true_eq, List.all_eq_true,
    Bool.not_eq_true', List.contains_eq_mem, decide_eq_false_iff_not]
  refine and_congr_right fun _ => ⟨fun he => ?_, fun he => ?_⟩
  · exact ⟨he.1.1.1, he.1.1.2, he.1.2, he.2⟩
  · exact ⟨⟨⟨he.ne_nil, he.length_le⟩, he.no_period⟩, he.short⟩

theorem isShortText_iff : isShortText wildcards cs ↔ ShortForm wildcards cs := by
  constructor
  · intro h
    by_cases hdot : '.' ∈ cs
    · obtain ⟨stem, extension, rfl, hstem⟩ := List.eq_append_cons_of_mem hdot
      obtain ⟨hs, he⟩ := (isShortText_dotted hstem).1 h
      exact .dotted hs he
    · exact .bare ((isShortText_bare hdot).1 h)
  · rintro (hs | ⟨hs, he⟩)
    · exact (isShortText_bare hs.no_period).2 hs
    · exact (isShortText_dotted hs.no_period).2 ⟨hs, he⟩

theorem IsPart.mono (h : IsPart false limit cs) : IsPart wildcards limit cs :=
  { h with short := fun c hc => isShortChar_mono (h.short c hc) }

theorem ShortForm.mono (h : ShortForm false cs) : ShortForm wildcards cs := by
  cases h with
  | bare hs => exact .bare hs.mono
  | dotted hs he => exact .dotted hs.mono he.mono

theorem ShortForm.length_le (h : ShortForm wildcards cs) :
    cs.length ≤ maxStem + 1 + maxExtension := by
  cases h with
  | bare hs =>
    have hstem := hs.length_le
    omega
  | dotted hs he =>
    have hstem := hs.length_le
    have hextension := he.length_le
    rw [List.length_append, List.length_cons]
    omega

/-! ## Long names -/

theorem isLongName_iff : isLongName wildcards cs
    ↔ (∃ c ∈ cs, c ≠ '.') ∧ ∀ c ∈ cs, Text.isControl c = false ∧ isAllowed wildcards c := by
  simp [isLongName]

theorem isLongName_mono (h : isLongName false cs) : isLongName wildcards cs := by
  rw [isLongName_iff] at h ⊢
  exact ⟨h.1, fun c hc => ⟨(h.2 c hc).1, isAllowed_mono (h.2 c hc).2⟩⟩

theorem IsPart.exists_ne_period (h : IsPart wildcards limit cs) : ∃ c ∈ cs, c ≠ '.' := by
  obtain ⟨c, hc⟩ := List.exists_mem_of_ne_nil cs h.ne_nil
  exact ⟨c, hc, fun heq => h.no_period (heq ▸ hc)⟩

theorem IsPart.legal (h : IsPart wildcards limit cs) :
    ∀ c ∈ cs, Text.isControl c = false ∧ isAllowed wildcards c := by
  intro c hc
  have hshort := h.short c hc
  simp only [isShortChar, Bool.and_eq_true] at hshort
  exact ⟨not_isControl_of_isGraphic hshort.1.1, hshort.2⟩

theorem ShortForm.isLongName (h : ShortForm wildcards cs) : isLongName wildcards cs := by
  rw [isLongName_iff]
  cases h with
  | bare hs => exact ⟨hs.exists_ne_period, hs.legal⟩
  | dotted hs he =>
    obtain ⟨c, hc, hne⟩ := hs.exists_ne_period
    have hperiod : Text.isControl '.' = false ∧ isAllowed wildcards '.' := ⟨rfl, rfl⟩
    refine ⟨⟨c, List.mem_append_left _ hc, hne⟩, List.forall_mem_append.2 ⟨hs.legal, ?_⟩⟩
    exact List.forall_mem_cons.2 ⟨hperiod, he.legal⟩

theorem not_isSeparator_of_isLongName (h : isLongName wildcards cs) :
    ∀ c ∈ cs, isSeparator c = false :=
  fun c hc => not_isSeparator_of_isAllowed ((isLongName_iff.1 h).2 c hc).2

/-! ## Paths -/

theorem isLegalSegment_iff : isLegalSegment wildcards cs
    ↔ cs = ['.'] ∨ cs = ['.', '.'] ∨ isLongName wildcards cs := by
  simp [isLegalSegment, or_assoc]

/-- `.` and `..` are no long names. -/
theorem isLongName_iff_isLegalSegment : isLongName wildcards cs
    ↔ isLegalSegment wildcards cs ∧ cs ≠ ['.'] ∧ cs ≠ ['.', '.'] := by
  rw [isLegalSegment_iff]
  constructor
  · intro h
    refine ⟨.inr (.inr h), ?_, ?_⟩ <;> rintro rfl <;> exact Bool.false_ne_true h
  · rintro ⟨hdot | hdots | h, hne, hnes⟩
    · exact absurd hdot hne
    · exact absurd hdots hnes
    · exact h

theorem isRelativePath_mono (h : isRelativePath false cs) : isRelativePath wildcards cs := by
  simp only [isRelativePath, Bool.and_eq_true, List.all_eq_true, isLegalSegment_iff] at h ⊢
  exact ⟨fun segment hs => (h.1 segment hs).imp_right (Or.imp_right isLongName_mono), h.2⟩

/-- A text without separators is a path of one segment. -/
theorem isRelativePath_of_no_separator (hne : cs ≠ []) (h : ∀ c ∈ cs, isSeparator c = false) :
    isRelativePath wildcards cs ↔ isLegalSegment wildcards cs := by
  have hone : segments cs = [cs] := List.splitOnP_eq_singleton h
  have hany : cs.any (!isSeparator ·) := by
    obtain ⟨c, hc⟩ := List.exists_mem_of_ne_nil cs hne
    exact List.any_eq_true.2 ⟨c, hc, by simp [h c hc]⟩
  simp [isRelativePath, hone, hne, hany]

/-! ## The rules for whole texts -/

theorem isLong_iff (relative : Bool) : isLong wildcards relative s
    ↔ s.toList ≠ [] ∧ s.toList.length ≤ maxLength
      ∧ if relative then isRelativePath wildcards s.toList else isLongName wildcards s.toList := by
  cases relative <;> simp [isLong, and_assoc]

theorem length_of_isLong {relative : Bool} (h : isLong wildcards relative s) :
    1 ≤ s.length ∧ s.length ≤ 259 := by
  obtain ⟨hne, hlength, -⟩ := (isLong_iff relative).1 h
  rw [← String.length_toList]
  exact ⟨List.length_pos_of_ne_nil hne, hlength⟩

theorem isLong_of_isShort (h : isShort wildcards s) : isLong wildcards false s := by
  have hform := isShortText_iff.1 h
  obtain ⟨⟨c, hc, -⟩, -⟩ := isLongName_iff.1 hform.isLongName
  have hfits : maxStem + 1 + maxExtension ≤ maxLength := by decide
  exact (isLong_iff false).2
    ⟨List.ne_nil_of_mem hc, hform.length_le.trans hfits, hform.isLongName⟩

theorem isLong_mono (relative : Bool) (h : isLong false relative s) :
    isLong wildcards relative s := by
  rw [isLong_iff] at h ⊢
  refine ⟨h.1, h.2.1, ?_⟩
  cases relative with
  | false => exact isLongName_mono h.2.2
  | true => exact isRelativePath_mono h.2.2

/-- A long name is a path without separators other than `.` and `..`. -/
theorem isLong_false_iff : isLong wildcards false s
    ↔ (∀ c ∈ s.toList, isSeparator c = false) ∧ isLong wildcards true s ∧ s ≠ "." ∧ s ≠ ".." := by
  have hdot : s = "." ↔ s.toList = ['.'] := by simp [← String.toList_inj]
  have hdots : s = ".." ↔ s.toList = ['.', '.'] := by simp [← String.toList_inj]
  simp only [isLong_iff, Bool.false_eq_true, if_false, if_true, Ne, hdot, hdots]
  constructor
  · rintro ⟨hne, hlength, hname⟩
    have hseparator := not_isSeparator_of_isLongName hname
    obtain ⟨hlegal, hperiods⟩ := isLongName_iff_isLegalSegment.1 hname
    exact ⟨hseparator, ⟨hne, hlength, (isRelativePath_of_no_separator hne hseparator).2 hlegal⟩,
      hperiods⟩
  · rintro ⟨hseparator, ⟨hne, hlength, hpath⟩, hperiods⟩
    have hlegal := (isRelativePath_of_no_separator hne hseparator).1 hpath
    exact ⟨hne, hlength, isLongName_iff_isLegalSegment.2 ⟨hlegal, hperiods⟩⟩

/-- A short name is a long name, and a long name is a path. More is legal with wildcards than
without. The long names are the paths of 1 to 259 characters without a separator that are neither
`.` nor `..`. None of the rules coincide: there are a long name that is not short, a path that is
no name, and a short name with wildcards that is not even a path without. -/
theorem isShort_isLong_nested (wildcards : Bool) :
    (∀ s, isShort wildcards s → isLong wildcards false s)
      ∧ (∀ s, isLong wildcards false s → isLong wildcards true s)
      ∧ (∀ s, isShort false s → isShort true s)
      ∧ (∀ relative s, isLong false relative s → isLong true relative s)
      ∧ (∀ s, isLong wildcards false s ↔ 1 ≤ s.length ∧ s.length ≤ 259
        ∧ '\\' ∉ s.toList ∧ '/' ∉ s.toList ∧ isLong wildcards true s ∧ s ≠ "." ∧ s ≠ "..")
      ∧ (∃ s, isLong wildcards false s ∧ ¬ isShort wildcards s)
      ∧ (∃ s, isLong wildcards true s ∧ ¬ isLong wildcards false s)
      ∧ ∃ s, isShort true s ∧ ¬ isLong false true s := by
  refine ⟨fun s => isLong_of_isShort, fun s h => (isLong_false_iff.1 h).2.1, fun s h => ?_,
    fun relative s => isLong_mono relative, fun s => ?_,
    ⟨"read me.txt", ?_⟩, ⟨"..", ?_⟩, ⟨"*.txt", ?_⟩⟩
  · exact isShortText_iff.2 (isShortText_iff.1 h).mono
  · rw [isLong_false_iff, forall_not_isSeparator_iff]
    constructor
    · rintro ⟨⟨hback, hslash⟩, hpath, hperiods⟩
      obtain ⟨hpos, hlength⟩ := length_of_isLong hpath
      exact ⟨hpos, hlength, hback, hslash, hpath, hperiods⟩
    · rintro ⟨-, -, hback, hslash, hpath, hperiods⟩
      exact ⟨⟨hback, hslash⟩, hpath, hperiods⟩
  · cases wildcards <;> decide
  · cases wildcards <;> decide
  · decide

theorem isShort_isLong_nested_setup :
    isShort false "SETUP~1.EXE" ∧ isShort true "SETUP~1.EXE" ∧ isLong false false "SETUP~1.EXE"
      ∧ isLong false true "SETUP~1.EXE" ∧ isLong true true "SETUP~1.EXE" := by
  obtain ⟨hshort, hlong, hwild, hwildLong, -⟩ := isShort_isLong_nested false
  have hsetup : isShort false "SETUP~1.EXE" := by decide
  have hpath := hlong _ (hshort _ hsetup)
  exact ⟨hsetup, hwild _ hsetup, hshort _ hsetup, hpath, hwildLong true _ hpath⟩

end InstallerAnalysis.Filename
