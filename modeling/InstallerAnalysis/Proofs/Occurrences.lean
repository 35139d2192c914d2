import Mathlib.Data.List.Basic

/-!
# Occurrences in lists

Without its repetitions, a list has its elements in the order of their first occurrences
(`pairwise_eraseDups`). A list of several elements holds two different ones or repeats a single one
(`one_lt_length_iff`).
-/

namespace InstallerAnalysis

variable {α : Type*}

section FirstOccurrences

variable [BEq α] [LawfulBEq α]

theorem idxOf_lt_of_filter {p : α → Bool} {x y : α} (hx : p x) (hy : p y) :
    ∀ {xs : List α}, (xs.filter p).idxOf x < (xs.filter p).idxOf y →
      xs.idxOf x < xs.idxOf y
  | [], h => by simp at h
  | z :: xs, h => by
    by_cases hz : p z
    · rw [List.filter_cons_of_pos hz] at h
      by_cases hzx : z = x
      · subst hzx
        by_cases hzy : z = y
        · subst hzy
          exact absurd h (Nat.lt_irrefl _)
        · rw [List.idxOf_cons_self, List.idxOf_cons_ne _ hzy]
          exact Nat.succ_pos _
      · by_cases hzy : z = y
        · subst hzy
          rw [List.idxOf_cons_self] at h
          exact absurd h (Nat.not_lt_zero _)
        · rw [List.idxOf_cons_ne _ hzx, List.idxOf_cons_ne _ hzy] at h ⊢
          exact Nat.succ_lt_succ (idxOf_lt_of_filter hx hy (Nat.lt_of_succ_lt_succ h))
    · have hzx : z ≠ x := fun heq => hz (heq ▸ hx)
      have hzy : z ≠ y := fun heq => hz (heq ▸ hy)
      rw [List.filter_cons_of_neg hz] at h
      rw [List.idxOf_cons_ne _ hzx, List.idxOf_cons_ne _ hzy]
      exact Nat.succ_lt_succ (idxOf_lt_of_filter hx hy h)

theorem pairwise_eraseDups : ∀ xs : List α,
    xs.eraseDups.Pairwise fun x y => xs.idxOf x < xs.idxOf y
  | [] => List.Pairwise.nil
  | z :: xs => by
    have hne : ∀ x ∈ (xs.filter fun b => !b == z).eraseDups, x ≠ z := by
      intro x hx
      simpa using (List.mem_filter.1 (List.mem_eraseDups.1 hx)).2
    have hrest := pairwise_eraseDups (xs.filter fun b => !b == z)
    rw [List.eraseDups_cons, List.pairwise_cons]
    refine ⟨fun x hx => ?_, hrest.imp_of_mem fun {x y} hx hy hxy => ?_⟩
    · rw [List.idxOf_cons_self, List.idxOf_cons_ne _ (hne x hx).symm]
      exact Nat.succ_pos _
    · rw [List.idxOf_cons_ne _ (hne x hx).symm, List.idxOf_cons_ne _ (hne y hy).symm]
      exact Nat.succ_lt_succ (idxOf_lt_of_filter (by simpa using hne x hx)
        (by simpa using hne y hy) hxy)
termination_by xs => xs.length
decreasing_by exact Nat.lt_succ_of_le (List.length_filter_le _ _)

theorem nodup_eraseDups (xs : List α) : xs.eraseDups.Nodup := by
  refine (pairwise_eraseDups xs).imp fun {x y} hlt => ?_
  rintro rfl
  omega

end FirstOccurrences

theorem one_lt_length_of_ne {xs : List α} {x y : α} (hx : x ∈ xs) (hy : y ∈ xs) (hne : x ≠ y) :
    1 < xs.length := by
  by_contra hle
  rcases xs with _ | ⟨a, _ | ⟨b, rest⟩⟩
  · exact List.not_mem_nil hx
  · exact hne ((List.mem_singleton.1 hx).trans (List.mem_singleton.1 hy).symm)
  · simp at hle

theorem one_lt_length_iff {xs : List α} : 1 < xs.length
    ↔ (∃ x ∈ xs, ∃ y ∈ xs, x ≠ y) ∨ ∃ x n, xs = List.replicate (n + 2) x := by
  constructor
  · intro hlen
    rw [or_iff_not_imp_left]
    intro hsame
    push Not at hsame
    obtain ⟨n, hn⟩ := Nat.exists_eq_add_of_lt hlen
    obtain ⟨x, hx⟩ := List.exists_mem_of_length_pos (Nat.zero_lt_of_lt hlen)
    exact ⟨x, n, List.eq_replicate_iff.2 ⟨by omega, fun y hy => hsame y hy x hx⟩⟩
  · rintro (⟨x, hx, y, hy, hne⟩ | ⟨x, n, rfl⟩)
    · exact one_lt_length_of_ne hx hy hne
    · simp

end InstallerAnalysis
