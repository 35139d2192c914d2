import InstallerAnalysis.Proofs.CoercionReports
import InstallerAnalysis.Proofs.Trimming
import InstallerAnalysis.Proofs.VariableReferences
import Mathlib.Data.Nat.Digits.Defs

/-!
# The numbers of attributes

`Denotes` says which integer a text stands for: digits in any number, with a sign or without, and
blanks around them. Reading finds that integer, whatever its size (`readInt_strip_eq_some_iff`);
that it has to fit a width is asked of the integer afterwards. So a number of an attribute is read
exactly if its text denotes one of the range, and what is wrong with any other text decides the one
error (`readAttribute_number`).
-/

namespace InstallerAnalysis

namespace Text

/-- One or more decimal digits. -/
def IsDigits (ds : List Char) : Prop :=
  ds ≠ [] ∧ ds.all Char.isDigit

/-- The number that digits stand for, the last of them for the ones. -/
def decimal (ds : List Char) : Nat :=
  Nat.ofDigits 10 (ds.reverse.map fun d => d.toNat - '0'.toNat)

/-- How an integer is written: as digits, with one sign before them or none. -/
inductive Numeral : List Char → Int → Prop
  | unsigned {ds : List Char} : IsDigits ds → Numeral ds (decimal ds)
  | positive {ds : List Char} : IsDigits ds → Numeral ('+' :: ds) (decimal ds)
  | negative {ds : List Char} : IsDigits ds → Numeral ('-' :: ds) (-decimal ds)

/-- The text is a numeral of the integer, with blanks around it or without. -/
def Denotes (s : String) (n : Int) : Prop :=
  ∃ numeral, Padded s.toList numeral ∧ Numeral numeral n

variable {cs : List Char} {s : String} {n : Int}

theorem natValue_eq_decimal (ds : List Char) : natValue ds = decimal ds := by
  rw [natValue, decimal, Nat.ofDigits_eq_foldr, List.foldr_map, List.foldr_reverse]
  simp [digitValue, Nat.add_comm]

theorem isDigits_iff : IsDigits cs ↔ (cs ≠ [] && cs.all isAsciiDigit) = true := by
  simp [IsDigits, isAsciiDigit_eq]

theorem readNat_eq_some_iff {m : Nat} : readNat cs = some m ↔ IsDigits cs ∧ decimal cs = m := by
  rw [readNat, natValue_eq_decimal, isDigits_iff]
  split_ifs with h
  · simp only [Option.some.injEq, h, true_and]
  · simp only [reduceCtorEq, h, false_and]

theorem readInt_of_isDigits (h : IsDigits cs) : readInt cs = some (decimal cs : Int) := by
  have hread := readNat_eq_some_iff.2 ⟨h, rfl⟩
  -- a digit is no sign
  unfold readInt
  split
  · exact absurd h.2 (by simp)
  · exact absurd h.2 (by simp)
  · rw [hread, Option.map_some]

theorem readInt_eq_some_iff : readInt cs = some n ↔ Numeral cs n := by
  constructor
  · intro h
    unfold readInt at h
    split at h
    · obtain ⟨m, hm, rfl⟩ := Option.map_eq_some_iff.1 h
      obtain ⟨hds, rfl⟩ := readNat_eq_some_iff.1 hm
      exact .negative hds
    · obtain ⟨m, hm, rfl⟩ := Option.map_eq_some_iff.1 h
      obtain ⟨hds, rfl⟩ := readNat_eq_some_iff.1 hm
      exact .positive hds
    · obtain ⟨m, hm, rfl⟩ := Option.map_eq_some_iff.1 h
      obtain ⟨hds, rfl⟩ := readNat_eq_some_iff.1 hm
      exact .unsigned hds
  · rintro (hds | hds | hds)
    · exact readInt_of_isDigits hds
    · rw [readInt, readNat_eq_some_iff.2 ⟨hds, rfl⟩, Option.map_some]
    · rw [readInt, readNat_eq_some_iff.2 ⟨hds, rfl⟩, Option.map_some]

theorem isBlank_of_isDigit {c : Char} (h : c.isDigit) : isBlank c = false := by
  simp only [Char.isDigit, Bool.and_eq_true, decide_eq_true_eq, ge_iff_le,
    UInt32.le_iff_toNat_le] at h
  have hlow : 48 ≤ c.toNat := h.1
  have hhigh : c.toNat ≤ 57 := h.2
  exact isBlank_of_range ⟨by omega, by omega⟩

/-- Neither signs nor digits are blank. -/
theorem Numeral.tight (h : Numeral cs n) : Tight cs := by
  refine tight_of_forall fun c hc => ?_
  have hdigits : ∀ {ds : List Char}, IsDigits ds → c ∈ ds → isBlank c = false :=
    fun hds hc => isBlank_of_isDigit (List.all_eq_true.1 hds.2 c hc)
  rcases h with hds | hds | hds
  · exact hdigits hds hc
  · rcases List.mem_cons.1 hc with rfl | hc
    · rfl
    · exact hdigits hds hc
  · rcases List.mem_cons.1 hc with rfl | hc
    · rfl
    · exact hdigits hds hc

theorem Numeral.ne_nil (h : Numeral cs n) : cs ≠ [] := by
  rcases h with hds | hds | hds
  · exact hds.1
  · exact List.cons_ne_nil _ _
  · exact List.cons_ne_nil _ _

/-- Reading between the blanks finds the integer that a text denotes. -/
theorem readInt_strip_eq_some_iff : readInt (strip s.toList) = some n ↔ Denotes s n := by
  rw [readInt_eq_some_iff]
  constructor
  · exact fun h => ⟨_, padded_strip _, h⟩
  · rintro ⟨numeral, hpadded, h⟩
    rwa [strip_eq_iff.2 ⟨hpadded, h.tight⟩]

theorem Denotes.unique {m : Int} (h : Denotes s n) (h' : Denotes s m) : n = m :=
  Option.some.inj ((readInt_strip_eq_some_iff.2 h).symm.trans (readInt_strip_eq_some_iff.2 h'))

theorem Denotes.allBlank_eq_false (h : Denotes s n) : allBlank s = false := by
  obtain ⟨numeral, ⟨before, after, hs, -⟩, h⟩ := h
  obtain ⟨c, rest, hc⟩ := List.exists_cons_of_ne_nil h.ne_nil
  have hfirst : isBlank c = false := h.tight.1 c (by rw [hc]; rfl)
  simp [allBlank, hs, hc, hfirst]

end Text

namespace Coercion

open Text

variable {bits : Nat} {minimum maximum n : Int} {s : String}

/-- The two numbers of a width that stand for something else. -/
def Reserved (bits : Nat) (n : Int) : Prop :=
  n = -2 ^ (bits - 1) ∨ n = -2 ^ (bits - 1) + 1

/-- The number has 64 bits. -/
def IsLong (n : Int) : Prop :=
  -2 ^ 63 ≤ n ∧ n < 2 ^ 63

/-- The code of the error for a text that is not read as a number of a width. -/
structure RefusalCode (bits : Nat) (s code : String) : Prop where
  blank : allBlank s → code = "E001"
  unreadable : allBlank s = false → (∀ n, Denotes s n → ¬ IsLong n) → code = "E003"
  reserved : ∀ n, Denotes s n → Reserved bits n → code = "E005"
  outside : ∀ n, Denotes s n → IsLong n → ¬ Reserved bits n → code = "E004"

theorem reserved_iff : Reserved bits n ↔ n = unset bits ∨ n = illegal bits := by
  simp [Reserved, illegal, unset, minSigned, Nat.shiftLeft_eq]

theorem illegal_eq : illegal bits = -2 ^ (bits - 1) + 1 := by
  simp [illegal, unset, minSigned, Nat.shiftLeft_eq]

theorem fitsSigned_iff : fitsSigned bits n ↔ -2 ^ (bits - 1) ≤ n ∧ n < 2 ^ (bits - 1) := by
  simp [fitsSigned, minSigned, Nat.shiftLeft_eq]

/-- Numbers of a smaller width are long. -/
theorem isLong_of_width (hbits : bits ≤ 64) (hn : -2 ^ (bits - 1) ≤ n ∧ n < 2 ^ (bits - 1)) :
    IsLong n := by
  have hwidth : (2 : Int) ^ (bits - 1) ≤ 2 ^ 63 := by
    exact_mod_cast Nat.pow_le_pow_right (by omega) (by omega)
  exact ⟨by omega, by omega⟩

theorem Reserved.isLong (hbits : bits ≤ 64) (h : Reserved bits n) : IsLong n := by
  have hpos : (0 : Int) < 2 ^ (bits - 1) := Int.pow_pos (by omega)
  refine isLong_of_width hbits ?_
  rcases h with rfl | rfl
  · exact ⟨by omega, by omega⟩
  · exact ⟨by omega, by omega⟩

/-! ## What reading comes to -/

theorem long?_eq_some_iff : long? s = some n ↔ Denotes s n ∧ IsLong n := by
  rw [long?, Option.filter_eq_some_iff, readInt_strip_eq_some_iff, fitsSigned_iff]
  rfl

theorem long?_eq_none_iff : long? s = none ↔ ∀ n, Denotes s n → ¬ IsLong n := by
  simp only [Option.eq_none_iff_forall_ne_some, ne_eq, long?_eq_some_iff, not_and]

theorem RefusalCode.of_allBlank (h : allBlank s) : RefusalCode bits s "E001" := by
  have hnone : ∀ n, ¬ Denotes s n := fun n hn => by simp [hn.allBlank_eq_false] at h
  exact ⟨fun _ => rfl, fun hblank => by simp [hblank] at h, fun n hn => absurd hn (hnone n),
    fun n hn => absurd hn (hnone n)⟩

theorem RefusalCode.of_unreadable (hbits : bits ≤ 64) (hblank : allBlank s = false)
    (h : ∀ n, Denotes s n → ¬ IsLong n) : RefusalCode bits s "E003" :=
  ⟨fun h => by simp [hblank] at h, fun _ _ => rfl,
    fun n hn hreserved => absurd (hreserved.isLong hbits) (h n hn),
    fun n hn hlong => absurd hlong (h n hn)⟩

theorem RefusalCode.of_reserved (hbits : bits ≤ 64) (h : Denotes s n) (hn : Reserved bits n) :
    RefusalCode bits s "E005" :=
  ⟨fun hblank => by simp [h.allBlank_eq_false] at hblank,
    fun _ hnone => absurd (hn.isLong hbits) (hnone n h), fun _ _ _ => rfl,
    fun m hm _ hother => absurd (h.unique hm ▸ hn) hother⟩

theorem RefusalCode.of_outside (h : Denotes s n) (hlong : IsLong n) (hn : ¬ Reserved bits n) :
    RefusalCode bits s "E004" :=
  ⟨fun hblank => by simp [h.allBlank_eq_false] at hblank, fun _ hnone => absurd hlong (hnone n h),
    fun m hm hreserved => absurd (h.unique hm ▸ hreserved) hn, fun _ _ _ _ => rfl⟩

/-- Either the text denotes a number of the range, or it is refused for one cause. -/
theorem number_exits (hbits : bits ≤ 64) (hmin : -2 ^ (bits - 1) + 1 < minimum)
    (hmax : maximum < 2 ^ (bits - 1)) (a : Attribute) :
    (∃ n, (number bits minimum maximum).Accepts a n none
        ∧ Denotes a.value n ∧ minimum ≤ n ∧ n ≤ maximum)
      ∨ ∃ fault, (number bits minimum maximum).Refuses a (illegal bits) fault
        ∧ (∀ n, Denotes a.value n → ¬ (minimum ≤ n ∧ n ≤ maximum))
        ∧ ∀ path, RefusalCode bits a.value (fault.wording path).code.text := by
  have hwidth : ∀ n, minimum ≤ n → n ≤ maximum → fitsSigned bits n := by
    intro n hn hn'
    exact fitsSigned_iff.2 ⟨by omega, by omega⟩
  obtain ⟨hblank, h⟩ | ⟨hblank, ⟨hread, h⟩ | ⟨n, hread, hn⟩⟩ := number_cases hwidth a
  · refine .inr ⟨.empty, h, fun n hn => ?_, fun _ => .of_allBlank hblank⟩
    simp [hn.allBlank_eq_false] at hblank
  · have hnone := long?_eq_none_iff.1 hread
    refine .inr ⟨_, h, fun n hn hrange => ?_, fun _ => .of_unreadable hbits hblank hnone⟩
    exact hnone n hn (isLong_of_width hbits ⟨by omega, by omega⟩)
  · obtain ⟨hdenotes, hlong⟩ := long?_eq_some_iff.1 hread
    rw [← reserved_iff] at hn
    obtain ⟨hreserved, h⟩ | ⟨-, hrange, h⟩ | ⟨hreserved, hrange, h⟩ := hn
    · refine .inr ⟨_, h, fun m hm hrange => ?_, fun _ => .of_reserved hbits hdenotes hreserved⟩
      obtain rfl := hdenotes.unique hm
      rcases hreserved with rfl | rfl <;> omega
    · exact .inl ⟨n, h, hdenotes, hrange⟩
    · refine .inr ⟨_, h, fun m hm => ?_, fun _ => .of_outside hdenotes hlong hreserved⟩
      rwa [← hdenotes.unique hm]

/-- A number of a width in a range without the two reserved numbers is read exactly if the text
denotes it, and then nothing is reported. Otherwise the second reserved number stands in, and there
is one error: for a blank text, for one that denotes no long number, for a reserved number, or for
one that is out of range. -/
theorem readAttribute_number (bits : Nat) (minimum maximum : Int) (hbits : bits ≤ 64)
    (hmin : -2 ^ (bits - 1) + 1 < minimum) (hmax : maximum < 2 ^ (bits - 1)) (loc : Location)
    (a : Attribute) (u : SourceUnit) :
    ∃ outcome reports, SourceUnit.readAttribute (number bits minimum maximum) loc a u
        = (outcome, u.withReports reports)
      ∧ (∀ n, outcome = .valid n ↔ Denotes a.value n ∧ minimum ≤ n ∧ n ≤ maximum)
      ∧ (outcome.isValid = true → reports = [])
      ∧ (outcome.isValid = false → outcome = .placeholder (-2 ^ (bits - 1) + 1)
        ∧ ∃ d code, reports = [d] ∧ d.isError ∧ d.code.map Code.text = some code
          ∧ RefusalCode bits a.value code) := by
  rcases number_exits hbits hmin hmax a with ⟨n, h, hn, hrange⟩ | ⟨fault, h, hnone, hcode⟩
  · refine ⟨.valid n, [], h.eq_self loc u, fun m => ?_, fun _ => rfl, fun hnot => ?_⟩
    · rw [Outcome.valid.injEq]
      constructor
      · rintro rfl
        exact ⟨hn, hrange⟩
      · exact fun hm => hn.unique hm.1
    · simp [Outcome.isValid] at hnot
  · have hrefused := h.eq loc u
    rw [illegal_eq] at hrefused
    refine ⟨_, _, hrefused, fun m => iff_of_false (by simp) fun hm => hnone m hm.1 hm.2, ?_, ?_⟩
    · simp [Outcome.isValid]
    · exact fun _ => ⟨rfl, _, _, rfl, Problem.report_value_isError loc a.path fault, rfl,
        hcode a.path⟩

section Levels

/-- A number with zeros before it and blanks around it. -/
def paddedLevel : Attribute :=
  ⟨⟨none, "Feature"⟩, ⟨none, "Level"⟩, "\t-00017 "⟩

/-- The number that stands for one that could not be read. -/
def reservedLevel : Attribute :=
  { paddedLevel with value := "-2147483647" }

theorem denotes_paddedLevel : Denotes paddedLevel.value (-17) :=
  ⟨"-00017".toList, ⟨['\t'], [' '], rfl, rfl, rfl⟩, .negative ⟨by decide, rfl⟩⟩

theorem denotes_reservedLevel : Denotes reservedLevel.value (-2147483647) :=
  ⟨"-2147483647".toList, ⟨[], [], rfl, rfl, rfl⟩, .negative ⟨by decide, rfl⟩⟩

/-- In the widest range of 32 bits the one is read, and the other is refused. -/
theorem readAttribute_number_levels :
    let u : SourceUnit := { catalog := Catalog.empty, content := { id := "Main" } }
    let c := number 32 (-2147483646) 2147483647
    (SourceUnit.readAttribute c ⟨"setup.xml", some 1⟩ paddedLevel u).1 = .valid (-17)
      ∧ (SourceUnit.readAttribute c ⟨"setup.xml", some 2⟩ reservedLevel u).1
        = .placeholder (-2147483647)
      ∧ ∃ d, (SourceUnit.readAttribute c ⟨"setup.xml", some 2⟩ reservedLevel u).2.diagnostics = [d]
        ∧ d.code.map Code.text = some "E005" := by
  intro u c
  constructor
  · obtain ⟨outcome, reports, heq, hvalid, -, -⟩ := readAttribute_number 32 (-2147483646) 2147483647
      (by omega) (by norm_num) (by norm_num) ⟨"setup.xml", some 1⟩ paddedLevel u
    rw [heq]
    exact (hvalid (-17)).2 ⟨denotes_paddedLevel, by omega, by omega⟩
  · obtain ⟨outcome, reports, heq, hvalid, -, hrefused⟩ := readAttribute_number 32 (-2147483646)
      2147483647 (by omega) (by norm_num) (by norm_num) ⟨"setup.xml", some 2⟩ reservedLevel u
    have hinvalid : outcome.isValid = false := by
      cases outcome with
      | valid n =>
        obtain ⟨hn, hmin, -⟩ := (hvalid n).1 rfl
        have := denotes_reservedLevel.unique hn
        omega
      | placeholder => rfl
    obtain ⟨rfl, d, code, rfl, -, hcode, hrefusal⟩ := hrefused hinvalid
    have hreserved := hrefusal.reserved _ denotes_reservedLevel (.inr (by norm_num))
    rw [heq]
    exact ⟨by norm_num, d, rfl, by rw [hcode, hreserved]⟩

end Levels

end Coercion

end InstallerAnalysis
