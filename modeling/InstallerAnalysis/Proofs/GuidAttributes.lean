import InstallerAnalysis.Proofs.CoercionReports
import InstallerAnalysis.Proofs.GuidText
import InstallerAnalysis.Proofs.VariableReferences

/-!
# GUID attributes

An attribute is read as a text in normal form: a canonical spelling, or one of the texts that are
kept as they are. A text in normal form is read as itself, so reading again changes nothing.
-/

namespace InstallerAnalysis

namespace Variable

theorem Spells.tight {s : String} {r : Reference} (h : Spells s r) : Text.Tight s.toList := by
  have htext := h.text
  constructor
  · intro c hc
    rw [htext] at hc
    simp only [List.cons_append, List.head?_cons, Option.mem_some_iff] at hc
    rw [← hc]
    cases r.sigil <;> decide
  · intro c hc
    rw [htext, List.getLast?_concat] at hc
    simp only [Option.mem_some_iff] at hc
    rw [← hc]
    decide

theorem Spells.mem_open {s : String} {r : Reference} (h : Spells s r) : '(' ∈ s.toList := by
  simp [h.text]

end Variable

namespace Coercion

variable {generatable mayBeEmpty : Bool} {a : Attribute} {s t : String}

/-- The text is a spelling of the number with nothing but blanks around it. -/
def DenotesGuid (s : String) (n : Nat) : Prop :=
  ∃ cs, Text.Padded s.toList cs ∧ Guid.Spells cs n

/-- What a GUID attribute is read as. -/
inductive NormalGuid (generatable mayBeEmpty : Bool) : String → Prop
  | empty : mayBeEmpty = true → NormalGuid generatable mayBeEmpty ""
  | star : generatable = true → NormalGuid generatable mayBeEmpty "*"
  | deferred {s : String} : Variable.isDeferred s → NormalGuid generatable mayBeEmpty s
  | text (guid : Guid) : NormalGuid generatable mayBeEmpty guid.text

theorem normalGuid_of_valid {loc : Location} {u : SourceUnit}
    (hvalid : (SourceUnit.readAttribute (guid generatable mayBeEmpty) loc a u).1 = .valid t) :
    NormalGuid generatable mayBeEmpty t := by
  obtain ⟨-, ⟨hallowed, h⟩ | ⟨-, h⟩⟩ | ⟨-, ⟨hkept, h⟩ | ⟨-, -, ⟨g, -, h⟩ | ⟨-, h⟩⟩⟩ :=
    guid_cases generatable mayBeEmpty a
  all_goals
    rw [h.eq] at hvalid
    cases hvalid
  · exact .empty hallowed
  · rcases hkept with ⟨hgen, hstar⟩ | hdeferred
    · rw [hstar]
      exact .star hgen
    · exact .deferred hdeferred
  · exact .text g

theorem accepts_guid_of_kept (htrim : Text.trim a.value = s) (hne : s ≠ "")
    (hkept : generatable = true ∧ s = "*" ∨ Variable.isDeferred s) :
    (guid generatable mayBeEmpty).Accepts a s none := by
  have hcases := guid_cases generatable mayBeEmpty a
  rw [htrim] at hcases
  obtain ⟨hempty, -⟩ | ⟨-, ⟨-, h⟩ | ⟨hstar, hdeferred, -⟩⟩ := hcases
  · exact absurd hempty hne
  · exact h
  · exact absurd hkept (not_or.2 ⟨hstar, by simp [hdeferred]⟩)

/-- A spelling is none of the texts that are kept as they are. -/
theorem accepts_guid_of_spells {g : Guid} (htrim : Text.trim a.value = s)
    (hs : Guid.Spells s.toList g.number) : (guid generatable mayBeEmpty).Accepts a g.text none := by
  obtain ⟨hopen, hasterisk⟩ := hs.not_mem
  have hcases := guid_cases generatable mayBeEmpty a
  rw [htrim] at hcases
  obtain ⟨rfl, -⟩ | ⟨-, ⟨⟨-, rfl⟩ | hdeferred, -⟩ | ⟨-, -, ⟨g', hparse, h⟩ | ⟨hparse, -⟩⟩⟩ := hcases
  · exact absurd rfl hs.ne_nil
  · exact absurd (by simp) hasterisk
  · obtain ⟨r, hr, -⟩ := Variable.Reference.any_parse?_iff.1 hdeferred
    exact absurd hr.mem_open hopen
  · rw [Guid.parse?_eq_some_iff.2 hs] at hparse
    cases hparse
    exact h
  · rw [Guid.parse?_eq_some_iff.2 hs] at hparse
    cases hparse

theorem accepts_guid_of_denotes {n : Nat} (h : DenotesGuid a.value n) : ∃ g : Guid, g.number = n
    ∧ ∀ generatable mayBeEmpty, (guid generatable mayBeEmpty).Accepts a g.text none := by
  obtain ⟨cs, hpadded, hspells⟩ := h
  obtain ⟨g, rfl⟩ := Guid.exists_number_eq hspells
  have htrim : Text.trim a.value = String.ofList cs := by
    rw [Text.trim, Text.strip_eq_iff.2 ⟨hpadded, hspells.tight⟩]
  exact ⟨g, rfl, fun _ _ => accepts_guid_of_spells htrim (by rwa [String.toList_ofList])⟩

theorem denotesGuid_text (g : Guid) : DenotesGuid g.text g.number :=
  ⟨g.text.toList, Text.padded_self _, g.spells_text⟩

/-- What an attribute is read as is read as it is. -/
theorem accepts_guid_of_normalGuid (h : NormalGuid generatable mayBeEmpty s) (ha : a.value = s) :
    (guid generatable mayBeEmpty).Accepts a s none := by
  cases h with
  | empty hallowed =>
    have htrim : Text.trim a.value = "" := by
      rw [ha]
      decide
    obtain ⟨-, ⟨-, h⟩ | ⟨hnot, -⟩⟩ | ⟨hne, -⟩ := guid_cases generatable mayBeEmpty a
    · exact h
    · simp [hallowed] at hnot
    · exact absurd htrim hne
  | star hgen =>
    have htrim : Text.trim a.value = "*" := by
      rw [ha]
      decide
    exact accepts_guid_of_kept htrim (by simp) (.inl ⟨hgen, rfl⟩)
  | deferred hdeferred =>
    obtain ⟨r, hr, -⟩ := Variable.Reference.any_parse?_iff.1 hdeferred
    have hne : s ≠ "" := by
      rintro rfl
      simpa using hr.mem_open
    have htrim : Text.trim a.value = s := by
      rw [ha, Text.trim_of_tight hr.tight]
    exact accepts_guid_of_kept htrim hne (.inr hdeferred)
  | text g =>
    obtain ⟨g', hnumber, h⟩ := accepts_guid_of_denotes (ha ▸ denotesGuid_text g)
    rw [← Guid.number_inj.1 hnumber]
    exact h generatable mayBeEmpty

/-- Reading a GUID attribute is canonical. What an attribute is read as is read as itself and
without a report. All texts that denote a number are read, as a canonical spelling, which is the
same exactly for the texts of one number. And name-based GUIDs, of version 3, are written in the
spelling they are read as. -/
theorem readAttribute_guid_canonical :
    (∀ generatable mayBeEmpty loc loc' (a b : Attribute) u u',
      (SourceUnit.readAttribute (guid generatable mayBeEmpty) loc a u).1 = .valid b.value →
        SourceUnit.readAttribute (guid generatable mayBeEmpty) loc' b u' = (.valid b.value, u'))
    ∧ (∀ n n' (a a' : Attribute), DenotesGuid a.value n → DenotesGuid a'.value n' →
      ∃ r r', (∃ groups, Guid.Canonical groups r) ∧ (r = r' ↔ n = n')
        ∧ ∀ generatable mayBeEmpty loc u,
          SourceUnit.readAttribute (guid generatable mayBeEmpty) loc a u = (.valid r, u)
            ∧ SourceUnit.readAttribute (guid generatable mayBeEmpty) loc a' u = (.valid r', u))
    ∧ ∀ space name (a : Attribute), a.value = (Guid.ofName space name).text →
      a.value.length = 38
        ∧ (∃ g₁ g₂ g₃ g₄ g₅, Guid.Canonical [g₁, g₂, g₃, g₄, g₅] a.value
          ∧ g₃.head? = some '3' ∧ ∃ variant ∈ ['8', '9', 'A', 'B'], g₄.head? = some variant)
        ∧ ∀ generatable mayBeEmpty loc u,
          SourceUnit.readAttribute (guid generatable mayBeEmpty) loc a u = (.valid a.value, u) := by
  refine ⟨?_, ?_, ?_⟩
  · intro generatable mayBeEmpty loc loc' a b u u' h
    exact (accepts_guid_of_normalGuid (normalGuid_of_valid h) rfl).eq_self loc' u'
  · intro n n' a a' h h'
    obtain ⟨g, rfl, haccepts⟩ := accepts_guid_of_denotes h
    obtain ⟨g', rfl, haccepts'⟩ := accepts_guid_of_denotes h'
    refine ⟨g.text, g'.text, ⟨_, g.canonical_text⟩, ?_, fun generatable mayBeEmpty loc u => ?_⟩
    · rw [Guid.text_inj, Guid.number_inj]
    · exact ⟨(haccepts generatable mayBeEmpty).eq_self loc u,
        (haccepts' generatable mayBeEmpty).eq_self loc u⟩
  · intro space name a ha
    rw [ha]
    refine ⟨Guid.length_text _, Guid.canonical_ofName space name, ?_⟩
    intro generatable mayBeEmpty loc u
    exact (accepts_guid_of_normalGuid (.text _) ha).eq_self loc u

/-- The code of an upgrade, as `urnCode` and `plainCode` spell it. -/
def upgradeCode : Guid :=
  ⟨[0x6f, 0x33, 0x0b, 0x47, 0x25, 0x77, 0x43, 0xad, 0x90, 0x95, 0x18, 0x61, 0xba, 0x25, 0x88, 0x9b],
    rfl⟩

def urnCode : Attribute :=
  ⟨⟨none, "Upgrade"⟩, ⟨none, "Id"⟩, " Urn:UUID:6f330b47-2577-43AD-9095-1861ba25889b\n"⟩

def plainCode : Attribute :=
  ⟨⟨none, "Upgrade"⟩, ⟨none, "Id"⟩, "6F330b47257743ad90951861BA25889B"⟩

theorem denotesGuid_urnCode : DenotesGuid urnCode.value upgradeCode.number :=
  ⟨"Urn:UUID:6f330b47-2577-43AD-9095-1861ba25889b".toList, ⟨[' '], ['\n'], by decide⟩,
    Guid.parse?_eq_some_iff.1 (by decide)⟩

theorem denotesGuid_plainCode : DenotesGuid plainCode.value upgradeCode.number :=
  ⟨plainCode.value.toList, Text.padded_self _, Guid.parse?_eq_some_iff.1 (by decide)⟩

/-- Two spellings of one code, and a name-based GUID. -/
theorem readAttribute_guid_canonical_codes :
    (∃ r, ∀ loc u, SourceUnit.readAttribute (guid true false) loc urnCode u = (.valid r, u)
      ∧ SourceUnit.readAttribute (guid true false) loc plainCode u = (.valid r, u)
      ∧ SourceUnit.readAttribute (guid true false) loc { plainCode with value := r } u
        = (.valid r, u))
    ∧ ∃ t, t = (Guid.ofName Guid.dnsSpace "MainExe").text ∧ t.length = 38
      ∧ ∀ loc u, SourceUnit.readAttribute (guid false false) loc { plainCode with value := t } u
        = (.valid t, u) := by
  obtain ⟨hagain, hcodes, hnamed⟩ := readAttribute_guid_canonical
  constructor
  · obtain ⟨r, r', -, hsame, hread⟩ := hcodes _ _ _ _ denotesGuid_urnCode denotesGuid_plainCode
    obtain rfl := hsame.2 rfl
    refine ⟨r, fun loc u => ⟨(hread true false loc u).1, (hread true false loc u).2, ?_⟩⟩
    exact hagain true false loc loc plainCode _ u u (by rw [(hread true false loc u).2])
  · -- the digest of the name is not computed
    obtain ⟨t, ht⟩ : ∃ t, t = (Guid.ofName Guid.dnsSpace "MainExe").text := ⟨_, rfl⟩
    obtain ⟨hlength, -, hread⟩ := hnamed Guid.dnsSpace "MainExe" { plainCode with value := t } ht
    exact ⟨t, ht, hlength, hread false false⟩

end Coercion

end InstallerAnalysis
