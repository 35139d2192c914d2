import InstallerAnalysis.Text.Blank
import Mathlib.Data.List.DropRight

/-!
# Trimmed text

Trimming leaves the one text without a blank at its ends that has only blanks around it
(`strip_eq_iff`). So a text without blanks at its ends is kept, and it is found again inside blanks.
-/

namespace InstallerAnalysis.Text

section EndRuns

variable {p : Char → Bool} {cs ds trail : List Char}

theorem dropEndWhile_append (h : dropEndWhile p ds ≠ []) (cs : List Char) :
    dropEndWhile p (cs ++ ds) = cs ++ dropEndWhile p ds := by
  simp only [dropEndWhile, ne_eq, List.reverse_eq_nil_iff] at h ⊢
  rw [List.reverse_append, List.dropWhile_append, if_neg (by rwa [List.isEmpty_iff]),
    List.reverse_append, List.reverse_reverse]

theorem dropEndWhile_append_trail (hcs : ∀ c ∈ cs.getLast?, p c = false)
    (htrail : ∀ c ∈ trail, p c) : dropEndWhile p (cs ++ trail) = cs := by
  have hself : cs.rdropWhile p = cs := by
    refine List.rdropWhile_eq_self_iff.2 fun hne => ?_
    rw [hcs _ (List.getLast?_eq_some_getLast hne)]
    decide
  rw [dropEndWhile, List.reverse_append, List.dropWhile_append_of_pos (by simpa using htrail)]
  exact hself

end EndRuns

/-- No blank stands first or last. -/
def Tight (cs : List Char) : Prop :=
  (∀ c ∈ cs.head?, isBlank c = false) ∧ ∀ c ∈ cs.getLast?, isBlank c = false

/-- The text is `core` with nothing but blanks around it. -/
def Padded (cs core : List Char) : Prop :=
  ∃ before after, cs = before ++ core ++ after ∧ before.all isBlank ∧ after.all isBlank

variable {cs core : List Char}

/-- No visible ASCII character is blank. -/
theorem isBlank_of_range {c : Char} (h : 33 ≤ c.toNat ∧ c.toNat ≤ 126) : isBlank c = false := by
  simp [isBlank]
  omega

theorem tight_of_forall (h : ∀ c ∈ cs, isBlank c = false) : Tight cs :=
  ⟨fun c hc => h c (List.mem_of_head? hc), fun c hc => h c (List.mem_of_getLast? hc)⟩

theorem padded_self (cs : List Char) : Padded cs cs :=
  ⟨[], [], by simp, rfl, rfl⟩

theorem padded_strip (cs : List Char) : Padded cs (strip cs) := by
  refine ⟨cs.takeWhile isBlank, (cs.dropWhile isBlank).rtakeWhile isBlank, ?_, ?_, ?_⟩
  · have hrest : strip cs ++ (cs.dropWhile isBlank).rtakeWhile isBlank = cs.dropWhile isBlank :=
      List.rdropWhile_append_rtakeWhile
    rw [List.append_assoc, hrest, List.takeWhile_append_dropWhile]
  · exact List.all_eq_true.2 fun c hc => List.mem_takeWhile_imp hc
  · exact List.all_eq_true.2 fun c hc => List.mem_rtakeWhile_imp hc

theorem tight_strip (cs : List Char) : Tight (strip cs) := by
  constructor
  · intro c hc
    obtain ⟨rest, hrest⟩ : strip cs <+: cs.dropWhile isBlank := List.rdropWhile_prefix isBlank _
    have hhead := List.head?_dropWhile_not isBlank cs
    obtain ⟨tail, htail⟩ := List.head?_eq_some_iff.1 hc
    rw [← hrest, htail] at hhead
    exact hhead
  · intro c hc
    obtain ⟨hne, rfl⟩ := List.mem_getLast?_eq_getLast hc
    exact Bool.not_eq_true _ ▸ List.rdropWhile_last_not isBlank _ hne

/-- What is left has no blanks at its ends and only blanks around it, and nothing else is such. -/
theorem strip_eq_iff : strip cs = core ↔ Padded cs core ∧ Tight core := by
  constructor
  · rintro rfl
    exact ⟨padded_strip cs, tight_strip cs⟩
  · rintro ⟨⟨before, after, rfl, hbefore, hafter⟩, hhead, hlast⟩
    rw [List.all_eq_true] at hbefore hafter
    rw [strip, List.append_assoc, List.dropWhile_append_of_pos hbefore]
    rcases core with _ | ⟨first, rest⟩
    · rw [List.nil_append, List.dropWhile_eq_nil_iff.2 hafter]
      rfl
    · have hfirst : ¬ isBlank first := by simp [hhead first rfl]
      rw [List.cons_append, List.dropWhile_cons_of_neg hfirst]
      exact dropEndWhile_append_trail hlast hafter

theorem strip_of_tight (h : Tight cs) : strip cs = cs :=
  strip_eq_iff.2 ⟨padded_self cs, h⟩

theorem trim_of_tight {s : String} (h : Tight s.toList) : trim s = s := by
  rw [trim, strip_of_tight h, String.ofList_toList]

end InstallerAnalysis.Text
