import InstallerAnalysis.Proofs.ShortNames
import Mathlib.Data.List.Forall2

/-!
# Short names do not depend on letter case

The stem hashes the long name in lower case, and the extension is cut from the name as it is
written and lowered alone. In ASCII lower case maps character by character (`lowerAfter_of_ascii`)
and moves no period (`lastExtension?_map_toLower`), so both ways meet: names equal but for letter
case get one short name (`synthesizeShort_of_equalButCase`). Localization references are left out:
they are hashed as they are written.
-/

namespace InstallerAnalysis

namespace Text

variable {c d : Char} {cs ds before : List Char}

/-- A capital letter and the small letter of it. -/
def IsCasePair (capital small : Char) : Prop :=
  capital.isUpper ∧ small.toNat = capital.toNat + 32

def isAscii (cs : List Char) : Bool :=
  cs.all (·.toNat < 0x80)

/-- Character by character the same, or the two cases of one letter. -/
def EqualButCase (cs ds : List Char) : Prop :=
  cs.Forall₂ (fun c d => c = d ∨ IsCasePair c d ∨ IsCasePair d c) ds

theorem isUpper_iff : c.isUpper ↔ 65 ≤ c.toNat ∧ c.toNat ≤ 90 :=
  decide_eq_true_iff.trans (and_congr UInt32.le_iff_toNat_le UInt32.le_iff_toNat_le)

theorem toNat_toLower (c : Char) :
    c.toLower.toNat = if c.isUpper then c.toNat + 32 else c.toNat := by
  by_cases h : c.isUpper
  · obtain ⟨-, hle⟩ := isUpper_iff.1 h
    have hlower : c.toLower.toNat = (c.val + 32).toNat :=
      congrArg Char.toNat (dif_pos (of_decide_eq_true h))
    rw [if_pos h, hlower, UInt32.toNat_add]
    exact Nat.mod_eq_of_lt (show c.toNat + 32 < 2 ^ 32 by omega)
  · have hlower : c.toLower = c := dif_neg fun hval => h (decide_eq_true hval)
    rw [if_neg h, hlower]

/-- Two characters share their lower case only as the two cases of one letter. -/
theorem toLower_eq_toLower_iff :
    c.toLower = d.toLower ↔ c = d ∨ IsCasePair c d ∨ IsCasePair d c := by
  rw [← Char.toNat_inj, toNat_toLower, toNat_toLower, ← Char.toNat_inj]
  simp only [IsCasePair, isUpper_iff]
  split_ifs <;> omega

theorem map_toLower_eq_iff : cs.map Char.toLower = ds.map Char.toLower ↔ EqualButCase cs ds := by
  simp only [EqualButCase, ← toLower_eq_toLower_iff]
  rw [← List.forall₂_eq_eq_eq, List.forall₂_map_left_iff, List.forall₂_map_right_iff]

theorem toLower_eq_dot_iff : c.toLower = '.' ↔ c = '.' := by
  rw [← Char.toNat_inj, toNat_toLower, ← Char.toNat_inj]
  simp only [isUpper_iff, Char.reduceToNat]
  split_ifs <;> omega

theorem lowerAfter_of_ascii (h : isAscii cs) : lowerAfter before cs = cs.map Char.toLower := by
  induction cs generalizing before with
  | nil => rfl
  | cons c cs ih =>
    obtain ⟨hc, hcs⟩ : c.toNat < 0x80 ∧ isAscii cs := by simpa [isAscii] using h
    have hsigma : c ≠ 'Σ' := by
      rintro rfl
      exact absurd hc (by decide)
    rw [lowerAfter, if_neg hsigma, lowerChar, if_pos hc, ih hcs]
    rfl

theorem isAscii_of_subset (h : isAscii ds) (hsub : cs ⊆ ds) : isAscii cs :=
  List.all_eq_true.2 fun c hc => List.all_eq_true.1 h c (hsub hc)

end Text

namespace Filename

open Text

variable {a b : String} {cs : List Char}

/-- Lower case neither moves nor makes a period, so the extension is cut at the same place. -/
theorem lastExtension?_map_toLower :
    lastExtension? (cs.map Char.toLower) = (lastExtension? cs).map (·.map Char.toLower) := by
  have hcontains : (cs.map Char.toLower).contains '.' = cs.contains '.' := by
    rw [Bool.eq_iff_iff]
    simp [toLower_eq_dot_iff]
  have hcut : (cs.map Char.toLower).reverse.takeWhile (· ≠ '.')
      = (cs.reverse.takeWhile (· ≠ '.')).map Char.toLower := by
    rw [← List.map_reverse, List.takeWhile_map]
    congr 1
    simp [Function.comp_def, toLower_eq_dot_iff]
  simp only [lastExtension?, hcontains, hcut, List.reverse_eq_nil_iff, List.map_eq_nil_iff]
  split_ifs
  · rfl
  · rw [Option.map_some, List.map_reverse]
  · rfl

/-- Of an ASCII name, what may be kept of the extension can be cut from the name in lower case. -/
theorem shortened_iff_of_ascii (hascii : isAscii a.toList) {kept : List Char} :
    Shortened a kept ↔ ∃ extension, lastExtension? (a.toList.map Char.toLower) = some extension
      ∧ kept = extension.take maxExtension := by
  simp only [shortened_iff, lastExtension?_map_toLower, Option.map_eq_some_iff,
    exists_exists_and_eq_and, ← List.map_take]
  refine exists_congr fun extension => and_congr_right fun hlast => ?_
  obtain ⟨-, -, hsuffix⟩ := lastExtension?_eq_some_iff.1 hlast
  have hsub : extension.take maxExtension ⊆ a.toList := fun c hc =>
    hsuffix.subset (List.mem_cons_of_mem _ (List.mem_of_mem_take hc))
  rw [lowerAfter_of_ascii (isAscii_of_subset hascii hsub)]

/-- The stem and what may be kept of the extension make the name. -/
theorem synthesizeShort_congr {salt : List String} (hstem : shortStem a salt = shortStem b salt)
    (hkept : ∀ kept, Shortened a kept ↔ Shortened b kept) (keepExtension wildcards : Bool) :
    synthesizeShort a keepExtension wildcards salt
      = synthesizeShort b keepExtension wildcards salt := by
  rcases synthesizeShort_cases a keepExtension wildcards salt with
    ⟨kept, hkeep, ha, hlegal, heq⟩ | ⟨hnone, heq⟩ <;>
  rcases synthesizeShort_cases b keepExtension wildcards salt with
    ⟨kept', hkeep', hb, hlegal', heq'⟩ | ⟨hnone', heq'⟩
  · rw [heq, heq', hstem, ((hkept kept).1 ha).unique hb]
  · exact absurd (hstem ▸ hlegal) (hnone' kept hkeep ((hkept kept).1 ha))
  · exact absurd (hstem ▸ hlegal') (hnone kept' hkeep' ((hkept kept').2 hb))
  · rw [heq, heq', hstem]

theorem hashedName_of_ascii (hascii : isAscii a.toList) (hloc : ¬ Variable.isLocalization a) :
    hashedName a = String.ofList (a.toList.map Char.toLower) := by
  rw [hashedName, if_neg hloc, lowercase, lowerAfter_of_ascii hascii]

/-- Two ASCII names that are no localization references are hashed alike exactly if they are equal
but for letter case, and then they get the same short name in every setting. -/
theorem synthesizeShort_of_equalButCase (a b : String) (ha : isAscii a.toList)
    (hb : isAscii b.toList) (hloca : ¬ Variable.isLocalization a)
    (hlocb : ¬ Variable.isLocalization b) :
    (hashedName a = hashedName b ↔ EqualButCase a.toList b.toList)
      ∧ (EqualButCase a.toList b.toList → ∀ keepExtension wildcards salt,
        synthesizeShort a keepExtension wildcards salt
          = synthesizeShort b keepExtension wildcards salt) := by
  have hhashed : hashedName a = hashedName b ↔ EqualButCase a.toList b.toList := by
    rw [hashedName_of_ascii ha hloca, hashedName_of_ascii hb hlocb, String.ofList_inj,
      map_toLower_eq_iff]
  refine ⟨hhashed, fun hequal keepExtension wildcards salt => ?_⟩
  apply synthesizeShort_congr
  · rw [shortStem, shortStem, hhashed.2 hequal]
  · intro kept
    rw [shortened_iff_of_ascii ha, shortened_iff_of_ascii hb, map_toLower_eq_iff.2 hequal]

/-- Names in the shape of a localization reference, which are none because their namespace is not
in lower case. What follows the last period makes an extension. -/
theorem synthesizeShort_of_equalButCase_capitals :
    (hashedName "!(LOC.Title)" = hashedName "!(Loc.TITLE)"
      ∧ EqualButCase "!(LOC.Title)".toList "!(Loc.TITLE)".toList)
    ∧ ∀ keepExtension wildcards salt,
      synthesizeShort "!(LOC.Title)" keepExtension wildcards salt
        = synthesizeShort "!(Loc.TITLE)" keepExtension wildcards salt := by
  have hequal : EqualButCase "!(LOC.Title)".toList "!(Loc.TITLE)".toList :=
    map_toLower_eq_iff.1 (by decide)
  obtain ⟨hhashed, hshort⟩ := synthesizeShort_of_equalButCase "!(LOC.Title)" "!(Loc.TITLE)"
    (by decide) (by decide) (by decide) (by decide)
  exact ⟨⟨hhashed.2 hequal, hequal⟩, hshort hequal⟩

end Filename

end InstallerAnalysis
