import InstallerAnalysis.Filename.ShortName
import InstallerAnalysis.Proofs.SynthesizedIdentifier

/-!
# Synthesized short names are short names

The eight characters of the stem are small letters, digits, hyphens and underscores, which short
names may hold anywhere (`isShortText_shortStem`). The extension is that of the long name, shortened
and in lower case, and is kept exactly if the whole is a short name (`synthesizeShort_cases`).
-/

namespace InstallerAnalysis.Filename

variable {wildcards : Bool} {cs extension : List Char}

/-- The characters of a synthesized stem. -/
def isStemChar (c : Char) : Bool :=
  c.isLower || c.isDigit || c = '_' || c = '-'

/-! ## The stem -/

theorem shortAlphabet_toLower : shortAlphabet.symbols.all fun c =>
    isStemChar c.toLower && isShortChar false c.toLower && c.toLower ≠ '.' := by
  decide +kernel

theorem shortStem_spec (longName : String) (salt : List String) {c : Char}
    (hc : c ∈ shortStem longName salt) : isStemChar c ∧ isShortChar false c ∧ c ≠ '.' := by
  obtain ⟨d, hd, rfl⟩ := List.mem_map.1 hc
  have hd := Digest.SixBit.mem_of_mem_encode (List.mem_of_mem_take hd)
  simpa [and_assoc] using List.all_eq_true.1 shortAlphabet_toLower d hd

theorem length_shortStem (longName : String) (salt : List String) :
    (shortStem longName salt).length = 8 := by
  rw [shortStem, List.length_map, List.length_take, Digest.SixBit.length_encode,
    Digest.length_partsDigest]
  rfl

/-- More characters are allowed where wildcards are. -/
theorem isAllowed_mono {c : Char} (h : isAllowed false c) : isAllowed wildcards c := by
  simp only [isAllowed, Bool.false_and, Bool.or_false] at h
  rw [isAllowed, h, Bool.true_or]

theorem isShortChar_mono {c : Char} (h : isShortChar false c) : isShortChar wildcards c := by
  simp only [isShortChar, Bool.and_eq_true] at h ⊢
  exact ⟨h.1, isAllowed_mono h.2⟩

theorem ne_period_of_not_mem (h : '.' ∉ cs) : ∀ c ∈ cs, decide (c ≠ '.') :=
  fun _ hc => decide_eq_true fun heq => h (heq ▸ hc)

theorem splitExtension_of_not_mem (h : '.' ∉ cs) : splitExtension cs = (cs, none) := by
  rw [splitExtension, List.dropWhile_eq_nil_iff.2 (ne_period_of_not_mem h)]

theorem isShortText_shortStem (longName : String) (salt : List String) :
    isShortText wildcards (shortStem longName salt) := by
  have hsplit := splitExtension_of_not_mem fun hdot => (shortStem_spec longName salt hdot).2.2 rfl
  have hlen := length_shortStem longName salt
  have hne : shortStem longName salt ≠ [] := List.ne_nil_of_length_pos (by omega)
  have hchars : (shortStem longName salt).all (isShortChar wildcards) :=
    List.all_eq_true.2 fun c hc => isShortChar_mono (shortStem_spec longName salt hc).2.1
  simp [isShortText, hsplit, hne, hlen, hchars, maxStem]

/-! ## The extension -/

theorem lastExtension?_append (before : List Char) (h : '.' ∉ extension) :
    lastExtension? (before ++ '.' :: extension)
      = if extension = [] then none else some extension := by
  have hreverse : (before ++ '.' :: extension).reverse
      = extension.reverse ++ '.' :: before.reverse := by simp
  have hclear := ne_period_of_not_mem (mt List.mem_reverse.1 h)
  have hlast : ((before ++ '.' :: extension).reverse.takeWhile (· ≠ '.')).reverse = extension := by
    rw [hreverse, List.takeWhile_append_of_pos hclear, List.takeWhile_cons_of_neg (by simp),
      List.append_nil, List.reverse_reverse]
  have hdot : (before ++ '.' :: extension).contains '.' := by simp
  unfold lastExtension?
  rw [if_pos hdot, hlast]

/-- The extension is the text after the last period, unless that is empty. -/
theorem lastExtension?_eq_some_iff : lastExtension? cs = some extension
    ↔ extension ≠ [] ∧ '.' ∉ extension ∧ ('.' :: extension) <:+ cs := by
  constructor
  · intro h
    have hmem : '.' ∈ cs.reverse := by
      by_contra hmem
      rw [lastExtension?, if_neg (by simpa using hmem)] at h
      cases h
    obtain ⟨after, before, hcs, hafter⟩ := List.eq_append_cons_of_mem hmem
    have hcs : cs = before.reverse ++ '.' :: after.reverse := by
      simpa using congrArg List.reverse hcs
    rw [hcs, lastExtension?_append _ (by simpa using hafter)] at h
    split_ifs at h with hne
    cases h
    exact ⟨hne, by simpa using hafter, before.reverse, hcs.symm⟩
  · rintro ⟨hne, hdot, before, rfl⟩
    rw [lastExtension?_append before hdot, if_neg hne]

/-- What short names may keep of the extension of a long name: the first three characters of the
text after the last period, in lower case. -/
def Shortened (longName : String) (kept : List Char) : Prop :=
  ∃ extension, extension ≠ [] ∧ '.' ∉ extension ∧ ('.' :: extension) <:+ longName.toList
    ∧ kept = (Text.lowercase (String.ofList (extension.take 3))).toList

variable {longName : String} {kept kept' : List Char}

theorem shortened_iff : Shortened longName kept
    ↔ ∃ extension, lastExtension? longName.toList = some extension
      ∧ kept = Text.lowerAfter [] (extension.take maxExtension) := by
  simp only [Shortened, lastExtension?_eq_some_iff, Text.lowercase, String.toList_ofList,
    maxExtension, and_assoc]

theorem Shortened.unique (h : Shortened longName kept) (h' : Shortened longName kept') :
    kept = kept' := by
  obtain ⟨extension, hsome, rfl⟩ := shortened_iff.1 h
  obtain ⟨extension', hsome', rfl⟩ := shortened_iff.1 h'
  rw [Option.some.inj (hsome.symm.trans hsome')]

/-- The name is the stem with what is kept of the extension if that is legal, and else the stem. -/
theorem synthesizeShort_cases (longName : String) (keepExtension wildcards : Bool)
    (salt : List String) :
    (∃ kept, keepExtension = true ∧ Shortened longName kept
        ∧ isShortText wildcards (shortStem longName salt ++ '.' :: kept)
        ∧ synthesizeShort longName keepExtension wildcards salt
          = String.ofList (shortStem longName salt ++ '.' :: kept))
      ∨ (∀ kept, keepExtension = true → Shortened longName kept →
          ¬ isShortText wildcards (shortStem longName salt ++ '.' :: kept))
        ∧ synthesizeShort longName keepExtension wildcards salt
          = String.ofList (shortStem longName salt) := by
  unfold synthesizeShort
  cases keepExtension with
  | false => exact .inr ⟨by simp, rfl⟩
  | true =>
    rcases hlast : lastExtension? longName.toList with _ | extension
    · refine .inr ⟨fun kept _ hkept => ?_, by simp⟩
      obtain ⟨extension, hsome, -⟩ := shortened_iff.1 hkept
      simp [hlast] at hsome
    · have hkept := shortened_iff.2 ⟨extension, hlast, rfl⟩
      simp only [if_true]
      by_cases hlegal : isShortText wildcards (shortStem longName salt
          ++ '.' :: Text.lowerAfter [] (extension.take maxExtension))
      · exact .inl ⟨_, trivial, hkept, hlegal, by rw [if_pos hlegal]⟩
      · refine .inr ⟨fun kept _ hkept' => ?_, by rw [if_neg hlegal]⟩
        rwa [hkept'.unique hkept]

/-- A synthesized name is a short name. It has a stem of eight small letters, digits, hyphens and
underscores, the same in all settings, and after a period what is kept of the extension of the long
name, if that is asked for and makes a short name. -/
theorem isShort_synthesizeShort (longName : String) (salt : List String) :
    (shortStem longName salt).length = 8 ∧ (shortStem longName salt).all isStemChar
      ∧ (∀ wildcards, isShort false (synthesizeShort longName false wildcards salt))
      ∧ ∀ keepExtension wildcards,
        let name := synthesizeShort longName keepExtension wildcards salt
        isShort wildcards name
          ∧ (name = String.ofList (shortStem longName salt)
            ∨ ∃ kept, name = String.ofList (shortStem longName salt ++ '.' :: kept))
          ∧ ∀ kept, name = String.ofList (shortStem longName salt ++ '.' :: kept)
            ↔ keepExtension = true ∧ Shortened longName kept
              ∧ isShort wildcards (String.ofList (shortStem longName salt ++ '.' :: kept)) := by
  simp only [isShort, String.toList_ofList]
  refine ⟨length_shortStem longName salt, ?_, fun wildcards => ?_,
    fun keepExtension wildcards => ?_⟩
  · exact List.all_eq_true.2 fun c hc => (shortStem_spec longName salt hc).1
  · have heq : synthesizeShort longName false wildcards salt
        = String.ofList (shortStem longName salt) := rfl
    rw [heq, String.toList_ofList]
    exact isShortText_shortStem longName salt
  · rcases synthesizeShort_cases longName keepExtension wildcards salt with
      ⟨kept, hkeep, hkept, hlegal, heq⟩ | ⟨hnone, heq⟩
    · rw [heq, String.toList_ofList]
      refine ⟨hlegal, .inr ⟨kept, rfl⟩, fun kept' => ⟨fun h => ?_, ?_⟩⟩
      · have hsame : kept = kept' := by simpa using congrArg String.toList h
        exact hsame ▸ ⟨hkeep, hkept, hlegal⟩
      · rintro ⟨-, hkept', -⟩
        rw [hkept.unique hkept']
    · rw [heq, String.toList_ofList]
      refine ⟨isShortText_shortStem longName salt, .inl rfl, fun kept' => iff_of_false ?_ ?_⟩
      · intro h
        simpa using congrArg String.toList h
      · exact fun h => hnone kept' h.1 h.2.1 h.2.2

end InstallerAnalysis.Filename
