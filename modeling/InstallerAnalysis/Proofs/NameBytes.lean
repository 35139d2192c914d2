import InstallerAnalysis.Guid.NameBased
import Mathlib.Data.List.Basic

/-!
# The bytes of a name

No two characters have code units of which one list begins with the other, since no character is a
surrogate (`codeUnits_append_inj`). So the units can be read back one character at a time, and with
the bytes of the units the whole text. A namespace is always sixteen bytes: the bytes that are
hashed tell both apart.
-/

namespace InstallerAnalysis

namespace Text

variable {c d : Char} {xs ys : List Nat}

theorem not_surrogate (c : Char) : c.toNat < 0xD800 ∨ 0xDFFF < c.toNat ∧ c.toNat < 0x110000 :=
  c.valid

theorem codeUnits_of_basic (h : c.toNat < 0x10000) : codeUnits c = [c.toNat] :=
  if_pos h

theorem codeUnits_of_beyond (h : ¬ c.toNat < 0x10000) : codeUnits c
    = [0xD800 + (c.toNat - 0x10000) / 0x400, 0xDC00 + (c.toNat - 0x10000) % 0x400] :=
  if_neg h

theorem lt_of_mem_codeUnits {unit : Nat} (h : unit ∈ codeUnits c) : unit < 0x10000 := by
  have hc := not_surrogate c
  by_cases hbasic : c.toNat < 0x10000
  · simp only [codeUnits_of_basic hbasic, List.mem_singleton] at h
    omega
  · simp only [codeUnits_of_beyond hbasic, List.mem_cons, List.not_mem_nil, or_false] at h
    omega

/-- The first unit tells whether a second one belongs to the character. -/
theorem codeUnits_append_inj (h : codeUnits c ++ xs = codeUnits d ++ ys) : c = d ∧ xs = ys := by
  have hc := not_surrogate c
  have hd := not_surrogate d
  -- a unit that begins a pair is a surrogate, and so is never a character of the basic plane
  by_cases hbasic : c.toNat < 0x10000 <;> by_cases hbasic' : d.toNat < 0x10000
  · simp only [codeUnits_of_basic hbasic, codeUnits_of_basic hbasic', List.singleton_append,
      List.cons.injEq] at h
    exact ⟨Char.toNat_inj.1 h.1, h.2⟩
  · simp only [codeUnits_of_basic hbasic, codeUnits_of_beyond hbasic', List.cons_append,
      List.cons.injEq] at h
    omega
  · simp only [codeUnits_of_beyond hbasic, codeUnits_of_basic hbasic', List.cons_append,
      List.cons.injEq] at h
    omega
  · simp only [codeUnits_of_beyond hbasic, codeUnits_of_beyond hbasic', List.cons_append,
      List.nil_append, List.cons.injEq] at h
    exact ⟨Char.toNat_inj.1 (by omega), h.2.2⟩

theorem codeUnits_ne_nil (c : Char) : codeUnits c ≠ [] := by
  unfold codeUnits
  split_ifs <;> simp

theorem flatMap_codeUnits_inj : ∀ {cs ds : List Char},
    cs.flatMap codeUnits = ds.flatMap codeUnits → cs = ds
  | [], [], _ => rfl
  | [], d :: ds, h => absurd (List.append_eq_nil_iff.1 h.symm).1 (codeUnits_ne_nil d)
  | c :: cs, [], h => absurd (List.append_eq_nil_iff.1 h).1 (codeUnits_ne_nil c)
  | c :: cs, d :: ds, h => by
    simp only [List.flatMap_cons] at h
    obtain ⟨rfl, hrest⟩ := codeUnits_append_inj h
    rw [flatMap_codeUnits_inj hrest]

theorem unitBytes_inj {m n : Nat} (hm : m < 0x10000) (hn : n < 0x10000)
    (h : unitBytes m = unitBytes n) : m = n := by
  simp only [unitBytes, List.cons.injEq, and_true, ← UInt8.toNat_inj, UInt8.toNat_ofNat'] at h
  omega

theorem flatMap_unitBytes_inj : ∀ {xs ys : List Nat}, (∀ unit ∈ xs, unit < 0x10000) →
    (∀ unit ∈ ys, unit < 0x10000) → xs.flatMap unitBytes = ys.flatMap unitBytes → xs = ys
  | [], [], _, _, _ => rfl
  | [], y :: ys, _, _, h => by simp [unitBytes] at h
  | x :: xs, [], _, _, h => by simp [unitBytes] at h
  | x :: xs, y :: ys, hxs, hys, h => by
    rw [List.forall_mem_cons] at hxs hys
    simp only [List.flatMap_cons] at h
    obtain ⟨hunit, hrest⟩ := List.append_inj h rfl
    rw [unitBytes_inj hxs.1 hys.1 hunit, flatMap_unitBytes_inj hxs.2 hys.2 hrest]

theorem utf16Bytes_eq (s : String) :
    utf16Bytes s = (s.toList.flatMap codeUnits).flatMap unitBytes :=
  List.flatMap_assoc.symm

theorem utf16Bytes_inj {s t : String} (h : utf16Bytes s = utf16Bytes t) : s = t := by
  have hlt : ∀ cs : List Char, ∀ unit ∈ cs.flatMap codeUnits, unit < 0x10000 := by
    intro cs unit hunit
    obtain ⟨c, -, hc⟩ := List.mem_flatMap.1 hunit
    exact lt_of_mem_codeUnits hc
  rw [utf16Bytes_eq, utf16Bytes_eq] at h
  exact String.toList_injective (flatMap_codeUnits_inj (flatMap_unitBytes_inj (hlt _) (hlt _) h))

end Text

namespace Guid

/-- The bytes that are hashed for a name determine the namespace and the name. -/
theorem nameBytes_eq_iff {space space' : Guid} {name name' : String} :
    nameBytes space name = nameBytes space' name' ↔ space = space' ∧ name = name' := by
  constructor
  · intro h
    obtain ⟨hspace, hname⟩ := List.append_inj h (space.size.trans space'.size.symm)
    obtain ⟨bytes, size⟩ := space
    obtain ⟨bytes', size'⟩ := space'
    obtain rfl : bytes = bytes' := hspace
    exact ⟨rfl, Text.utf16Bytes_inj hname⟩
  · rintro ⟨rfl, rfl⟩
    rfl

example : (nameBytes urlSpace "é😀").drop 16 = [0xE9, 0x00, 0x3D, 0xD8, 0x00, 0xDE] := by decide

end Guid

end InstallerAnalysis
