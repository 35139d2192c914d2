import InstallerAnalysis.Proofs.Numerals

/-!
# The grammar of versions

A version is one to four runs of digits joined by single periods, each for a number of at most
65535 (`Writes`). Reading takes one part after the other off the front of a text
(`part?_eq_some_iff`, `exists_of_furtherParts`) and never has to give one back: it accepts exactly
these texts and finds their numbers (`parse?_eq_some_iff`). Among them are the numbers in decimal,
joined by periods (`parse?_dotted`). A version attribute is one of these texts or a binder variable,
and never both.
-/

namespace InstallerAnalysis

namespace Version

open Text (IsDigits decimal)

/-- Digits that stand for a number of at most 65535, with zeros before it or without. -/
def IsPart (run : List Char) : Prop :=
  IsDigits run ∧ decimal run ≤ 65535

/-- The text is one to four parts joined by single periods, and the numbers are theirs. -/
def Writes (s : String) (parts : List Nat) : Prop :=
  ∃ runs : List (List Char), s.toList = List.intercalate ['.'] runs
    ∧ 1 ≤ runs.length ∧ runs.length ≤ 4 ∧ (∀ run ∈ runs, IsPart run) ∧ parts = runs.map decimal

/-- Numbers in decimal, joined by periods. -/
def dotted (parts : List Nat) : String :=
  String.intercalate "." (parts.map Nat.repr)

variable {run cs rest : List Char} {n : Nat} {s : String} {parts : List Nat}

/-! ## One part -/

theorem le_foldl_digits (ds : List Char) (n : Nat) :
    n ≤ ds.foldl (fun m d => 10 * m + Text.digitValue d) n := by
  induction ds generalizing n with
  | nil => exact le_rfl
  | cons d ds ih =>
    have hfirst : n ≤ 10 * n + Text.digitValue d := by omega
    exact hfirst.trans (ih _)

/-- A number that has left 32 bits does not come back to them. -/
theorem foldlM_takeDigit?_eq : ∀ (ds : List Char) {n : Nat}, n < UInt32.size →
    ds.foldlM takeDigit? n
      = if ds.foldl (fun m d => 10 * m + Text.digitValue d) n < UInt32.size
        then some (ds.foldl (fun m d => 10 * m + Text.digitValue d) n) else none
  | [], n, hn => by simp [hn]
  | d :: ds, n, hn => by
    rw [List.foldlM_cons, List.foldl_cons]
    by_cases hnext : 10 * n + Text.digitValue d < UInt32.size
    · rw [takeDigit?, if_pos hnext, Option.bind_eq_bind, Option.bind_some,
        foldlM_takeDigit?_eq ds hnext]
    · have hlast := (not_lt.1 hnext).trans (le_foldl_digits ds _)
      rw [takeDigit?, if_neg hnext, if_neg (not_lt.2 hlast)]
      rfl

theorem word?_eq (run : List Char) :
    word? run = if decimal run < UInt32.size then some (decimal run) else none := by
  rw [← Text.natValue_eq_decimal]
  exact foldlM_takeDigit?_eq run (by decide)

/-- The digits at the front of a text are taken all together. -/
theorem digits?_eq_some_iff : digits? cs = some (run, rest)
    ↔ cs = run ++ rest ∧ IsDigits run ∧ ∀ c ∈ rest.head?, ¬ c.isDigit := by
  have hmem : ∀ c ∈ cs.takeWhile Text.isAsciiDigit, c.isDigit := fun c hc => by
    simpa [Text.isAsciiDigit_eq] using List.mem_takeWhile_imp hc
  have hhead : ∀ c ∈ (cs.dropWhile Text.isAsciiDigit).head?, ¬ c.isDigit := by
    intro c hc
    have hnot := List.head?_dropWhile_not Text.isAsciiDigit cs
    rw [Option.mem_def.1 hc] at hnot
    simpa [Text.isAsciiDigit_eq] using hnot
  constructor
  · intro h
    unfold digits? at h
    split_ifs at h with hne
    cases h
    exact ⟨List.takeWhile_append_dropWhile.symm, ⟨hne, List.all_eq_true.2 hmem⟩, hhead⟩
  · rintro ⟨rfl, hrun, hrest⟩
    have hdigits : ∀ c ∈ run, Text.isAsciiDigit c := by
      simpa [Text.isAsciiDigit_eq] using hrun.2
    have hcut : rest.takeWhile Text.isAsciiDigit = []
        ∧ rest.dropWhile Text.isAsciiDigit = rest := by
      cases rest with
      | nil => exact ⟨rfl, rfl⟩
      | cons c rest =>
        have hc : ¬ Text.isAsciiDigit c := by
          simpa [Text.isAsciiDigit_eq] using hrest c rfl
        exact ⟨List.takeWhile_cons_of_neg hc, List.dropWhile_cons_of_neg hc⟩
    unfold digits?
    rw [List.takeWhile_append_of_pos hdigits, List.dropWhile_append_of_pos hdigits, hcut.1, hcut.2,
      List.append_nil, if_neg hrun.1]

/-- Where the number of all digits is too large, no shorter run of them is tried. -/
theorem part?_eq_some_iff : part? cs = some (n, rest)
    ↔ ∃ run, cs = run ++ rest ∧ IsPart run ∧ n = decimal run ∧ ∀ c ∈ rest.head?, ¬ c.isDigit := by
  have hwidth : 65535 < UInt32.size := by decide
  constructor
  · intro h
    simp only [part?, word?_eq, Option.bind_eq_bind, Option.bind_eq_some_iff,
      Option.ite_none_right_eq_some] at h
    obtain ⟨⟨run, tail⟩, hdigits, m, ⟨-, hword⟩, hle, hpart⟩ := h
    obtain ⟨rfl, hrun, hhead⟩ := digits?_eq_some_iff.1 hdigits
    cases hword
    cases hpart
    exact ⟨run, rfl, ⟨hrun, hle⟩, rfl, hhead⟩
  · rintro ⟨run, rfl, hrun, rfl, hhead⟩
    have hword : word? run = some (decimal run) := by
      rw [word?_eq, if_pos (hrun.2.trans_lt hwidth)]
    simp [part?, digits?_eq_some_iff.2 ⟨rfl, hrun.1, hhead⟩, hword, maxPart, hrun.2]

/-! ## Several parts -/

/-- Runs of characters with a period before each. -/
def punctuated (runs : List (List Char)) : List Char :=
  runs.flatMap ('.' :: ·)

theorem punctuated_cons (run : List Char) (runs : List (List Char)) :
    punctuated (run :: runs) = '.' :: (run ++ punctuated runs) := rfl

theorem intercalate_cons_eq (run : List Char) (runs : List (List Char)) :
    List.intercalate ['.'] (run :: runs) = run ++ punctuated runs := by
  induction runs generalizing run with
  | nil => simp [punctuated]
  | cons next runs ih =>
    rw [List.intercalate_cons_cons, ih]
    simp [punctuated]

/-- What follows a part is not a digit: it is a period or nothing. -/
theorem head?_punctuated (runs : List (List Char)) :
    ∀ c ∈ (punctuated runs).head?, ¬ c.isDigit := by
  intro c hc
  cases runs with
  | nil => cases hc
  | cons run runs =>
    cases hc
    decide

/-- The parts that are taken stand at the front of the text. -/
theorem exists_of_furtherParts (limit : Nat) (cs : List Char) : ∃ runs,
    cs = punctuated runs ++ (furtherParts limit cs).2 ∧ runs.length ≤ limit
      ∧ (∀ run ∈ runs, IsPart run) ∧ (furtherParts limit cs).1 = runs.map decimal := by
  fun_induction furtherParts limit cs with
  | case1 limit cs n rest hpart parts last hfurther ih =>
    obtain ⟨run, rfl, hrun, rfl, -⟩ := part?_eq_some_iff.1 hpart
    obtain ⟨runs, hrest, hlen, hruns, hparts⟩ := ih
    rw [hfurther] at hrest hparts
    refine ⟨run :: runs, ?_, Nat.succ_le_succ hlen, List.forall_mem_cons.2 ⟨hrun, hruns⟩, ?_⟩
    · rw [punctuated_cons, List.cons_append, List.append_assoc, ← hrest]
    · rw [List.map_cons, ← hparts]
  | case2 limit cs hpart => exact ⟨[], rfl, Nat.zero_le _, by simp, rfl⟩
  | case3 limit cs hno => exact ⟨[], rfl, Nat.zero_le _, by simp, rfl⟩

/-- Parts with periods before them are all taken, up to the limit. -/
theorem furtherParts_punctuated : ∀ {runs : List (List Char)} {limit : Nat}, runs.length ≤ limit →
    (∀ run ∈ runs, IsPart run) → furtherParts limit (punctuated runs) = (runs.map decimal, [])
  | [], limit, _, _ => by
    cases limit <;> rfl
  | run :: runs, limit + 1, hlen, hruns => by
    obtain ⟨hrun, hruns⟩ := List.forall_mem_cons.1 hruns
    have hpart : part? (run ++ punctuated runs) = some (decimal run, punctuated runs) :=
      part?_eq_some_iff.2 ⟨run, rfl, hrun, rfl, head?_punctuated runs⟩
    have hrest := furtherParts_punctuated (Nat.le_of_succ_le_succ hlen) hruns
    simp [punctuated_cons, furtherParts, hpart, hrest]

/-- Reading accepts the texts of versions, and finds the numbers of their parts. -/
theorem parse?_eq_some_iff : parse? s = some parts ↔ Writes s parts := by
  constructor
  · intro h
    unfold parse? at h
    split at h
    case h_2 => cases h
    case h_1 found hparts =>
      cases h
      simp only [parts?, Option.bind_eq_bind, Option.bind_eq_some_iff] at hparts
      obtain ⟨⟨n, rest⟩, hpart, hparts⟩ := hparts
      obtain ⟨run, hs, hrun, rfl, -⟩ := part?_eq_some_iff.1 hpart
      obtain ⟨runs, hrest, hlen, hruns, hnumbers⟩ := exists_of_furtherParts (maxParts - 1) rest
      obtain ⟨rfl, hlast⟩ : decimal run :: (furtherParts (maxParts - 1) rest).1 = parts
          ∧ (furtherParts (maxParts - 1) rest).2 = [] := by simpa using hparts
      rw [hlast, List.append_nil] at hrest
      refine ⟨run :: runs, ?_, Nat.succ_le_succ (Nat.zero_le _), Nat.succ_le_succ hlen,
        List.forall_mem_cons.2 ⟨hrun, hruns⟩, ?_⟩
      · rw [hs, hrest, intercalate_cons_eq]
      · rw [hnumbers, List.map_cons]
  · rintro ⟨runs, hs, hpos, hlen, hruns, rfl⟩
    obtain ⟨run, runs, rfl⟩ := List.exists_cons_of_length_pos hpos
    obtain ⟨hrun, hruns⟩ := List.forall_mem_cons.1 hruns
    have hpart : part? (run ++ punctuated runs) = some (decimal run, punctuated runs) :=
      part?_eq_some_iff.2 ⟨run, rfl, hrun, rfl, head?_punctuated runs⟩
    have hfurther : furtherParts (maxParts - 1) (punctuated runs) = (runs.map decimal, []) :=
      furtherParts_punctuated (Nat.le_of_succ_le_succ hlen) hruns
    rw [intercalate_cons_eq] at hs
    simp [parse?, parts?, hs, hpart, hfurther]

theorem parse?_eq_none_iff : parse? s = none ↔ ∀ parts, ¬ Writes s parts := by
  simp only [Option.eq_none_iff_forall_ne_some, ne_eq, parse?_eq_some_iff]

theorem decimal_toDigits (n : Nat) : decimal (Nat.toDigits 10 n) = n := by
  rw [← Text.natValue_eq_decimal]
  exact Nat.ofDigitChars_ten_toDigits

theorem isDigits_toDigits (n : Nat) : IsDigits (Nat.toDigits 10 n) :=
  ⟨Nat.toDigits_ne_nil, List.all_eq_true.2 fun _ hc =>
    Nat.isDigit_of_mem_toDigits (by decide) (by decide) hc⟩

/-- One to four numbers of at most 65535 are read back from their decimal text. -/
theorem parse?_dotted : parse? (dotted parts) = some parts
    ↔ 1 ≤ parts.length ∧ parts.length ≤ 4 ∧ ∀ n ∈ parts, n ≤ 65535 := by
  rw [parse?_eq_some_iff]
  constructor
  · rintro ⟨runs, -, hpos, hlen, hruns, rfl⟩
    rw [List.length_map]
    exact ⟨hpos, hlen, List.forall_mem_map.2 fun run hrun => (hruns run hrun).2⟩
  · rintro ⟨hpos, hlen, hle⟩
    refine ⟨parts.map (Nat.toDigits 10), ?_, by simpa using hpos, by simpa using hlen, ?_, ?_⟩
    · rw [dotted, String.toList_intercalate, List.map_map]
      exact congrArg _ (List.map_congr_left fun n _ => Nat.toList_repr)
    · refine List.forall_mem_map.2 fun n hn => ⟨isDigits_toDigits n, ?_⟩
      rw [decimal_toDigits]
      exact hle n hn
    · rw [List.map_map]
      exact (List.map_id'' decimal_toDigits parts).symm

example : parse? "007.65535" = some [7, 65535] ∧ parse? "1.2." = none
    ∧ parse? "1.65536" = none := by
  decide

/-! ## Attributes -/

/-- The text of a version starts with a digit. -/
theorem Writes.exists_cons (h : Writes s parts) :
    ∃ first rest, s.toList = first :: rest ∧ first.isDigit := by
  obtain ⟨runs, hs, hpos, -, hruns, -⟩ := h
  obtain ⟨run, runs, rfl⟩ := List.exists_cons_of_length_pos hpos
  obtain ⟨hne, hdigits⟩ := (hruns run List.mem_cons_self).1
  obtain ⟨first, digits, rfl⟩ := List.exists_cons_of_ne_nil hne
  rw [List.intercalate_cons_cons_left] at hs
  exact ⟨first, _, hs, List.all_eq_true.1 hdigits first List.mem_cons_self⟩

theorem Writes.allBlank_eq_false (h : Writes s parts) : Text.allBlank s = false := by
  obtain ⟨first, rest, hs, hdigit⟩ := h.exists_cons
  simp [Text.allBlank, hs, Text.isBlank_of_isDigit hdigit]

theorem Writes.isBinder_eq_false (h : Writes s parts) : Variable.isBinder s = false := by
  obtain ⟨first, rest, hs, hdigit⟩ := h.exists_cons
  refine Bool.eq_false_iff.2 fun hbinder => ?_
  obtain ⟨r, hr, -⟩ := Variable.Reference.any_parse?_iff.1 hbinder
  have htext := hr.text
  rw [hs] at htext
  obtain ⟨rfl, -⟩ := List.cons_eq_cons.1 htext
  cases hsigil : r.sigil <;> simp [hsigil, Variable.Sigil.char] at hdigit

end Version

namespace Variable

theorem allBlank_of_isBinder {s : String} (h : isBinder s) : Text.allBlank s = false := by
  obtain ⟨r, hr, -⟩ := Reference.any_parse?_iff.1 h
  have hopen : Text.isBlank '(' = false := rfl
  exact List.all_eq_false.2 ⟨'(', by simp [hr.text], by simp [hopen]⟩

end Variable

namespace Coercion

open Version

/-- A text is read as numbers exactly if it is one to four of them, of at most 65535 and joined by
periods, and these are the numbers; so numbers are read back from their decimal text. An attribute
is kept as a version exactly if its text is one, and as a variable exactly if its text is a binder
variable; nothing else is accepted. -/
theorem readAttribute_version :
    (∀ s parts, parse? s = some parts ↔ Writes s parts)
      ∧ (∀ parts, parse? (dotted parts) = some parts
        ↔ 1 ≤ parts.length ∧ parts.length ≤ 4 ∧ ∀ n ∈ parts, n ≤ 65535)
      ∧ ∀ loc (a : Attribute) u value, (SourceUnit.readAttribute version loc a u).1 = .valid value
        ↔ value = some (.numeric a.value) ∧ (∃ parts, Writes a.value parts)
          ∨ value = some (.bound a.value) ∧ Variable.isBinder a.value := by
  refine ⟨fun _ _ => parse?_eq_some_iff, fun _ => parse?_dotted, fun loc a u value => ?_⟩
  obtain ⟨hblank, h⟩ | ⟨-, ⟨hsome, h⟩ | ⟨hnone, hbinder⟩⟩ := version_cases a
  · have hversion : ∀ parts, ¬ Writes a.value parts := by
      intro parts hparts
      simp [hparts.allBlank_eq_false] at hblank
    have hvariable : Variable.isBinder a.value = false := by
      refine Bool.eq_false_iff.2 fun hbinder => ?_
      simp [Variable.allBlank_of_isBinder hbinder] at hblank
    rw [h.eq]
    simp [hversion, hvariable]
  · obtain ⟨parts, hparse⟩ := Option.isSome_iff_exists.1 hsome
    have hparts : Writes a.value parts := parse?_eq_some_iff.1 hparse
    have hexists : ∃ parts, Writes a.value parts := ⟨parts, hparts⟩
    rw [h.eq]
    simp [hexists, hparts.isBinder_eq_false, eq_comm]
  · have hversion := parse?_eq_none_iff.1 hnone
    obtain ⟨hvariable, h⟩ | ⟨hvariable, h⟩ := hbinder
    · rw [h.eq]
      simp [hversion, hvariable, eq_comm]
    · rw [h.eq]
      simp [hversion, hvariable]

end Coercion

end InstallerAnalysis
