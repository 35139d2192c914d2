import InstallerAnalysis.Proofs.CoercionReports
import InstallerAnalysis.Proofs.InlinePath

/-!
# Relative paths lead where their normal form leads

`walk` follows the segments of a path from any place. A path is refused for climbing above its root
exactly if it `Escapes`, that is, if at some point it has had more `..` than names
(`resolve_eq_none_iff`). Otherwise the names that are left lead from every place to where the path
leads (`walk_of_resolve`). They are the names of the normal form, and a path in normal form is the
only one that leads there (`outcome_longName_eq_valid_iff`).
-/

namespace InstallerAnalysis

namespace Filename

/-- A segment that names something: neither empty nor `.` nor `..`. -/
def isPlain (segment : List Char) : Bool :=
  segment ≠ [] && segment ≠ ['.'] && segment ≠ ['.', '.']

/-- Where a segment leads. A place is given by the names on the way to it, the last one first, and
`..` leads from the top to the top. -/
def enter (place : List (List Char)) (segment : List Char) : List (List Char) :=
  if segment = [] ∨ segment = ['.'] then place
  else if segment = ['.', '.'] then place.tail
  else segment :: place

def walk (place path : List (List Char)) : List (List Char) :=
  path.foldl enter place

/-- Some of the first segments hold more `..` than the names among them and the given number. -/
def Overdraws (names : Nat) (path : List (List Char)) : Prop :=
  ∃ start, start <+: path ∧ names + start.countP isPlain < start.count ['.', '.']

/-- Some of the first segments hold more `..` than names. -/
def Escapes (path : List (List Char)) : Prop :=
  ∃ start, start <+: path ∧ start.countP isPlain < start.count ['.', '.']

/-- Names that are joined by single backslashes, in no more characters than a name may have. -/
structure Normal (wildcards : Bool) (s : String) : Prop where
  joined : s.toList = joinNames (segments s.toList)
  plain : ∀ name ∈ segments s.toList, isPlain name ∧ isLongName wildcards name
  length_le : s.length ≤ 259

variable {names path result : List (List Char)} {segment name : List Char} {cs : List Char}
  {wildcards : Bool}

/-! ## Segments -/

theorem isPlain_iff :
    isPlain segment ↔ segment ≠ [] ∧ segment ≠ ['.'] ∧ segment ≠ ['.', '.'] := by
  simp [isPlain, and_assoc]

theorem segment_cases (segment : List Char) :
    (segment = [] ∨ segment = ['.']) ∨ segment = ['.', '.'] ∨ isPlain segment := by
  rw [isPlain_iff]
  tauto

theorem not_isSeparator_of_mem_segments {cs : List Char} (hs : segment ∈ segments cs) {c : Char}
    (hc : c ∈ segment) : isSeparator c = false := by
  rcases segments_cases cs with ⟨h, hcs⟩ | ⟨head, sep, rest, he, hhead, -, h⟩
  · rw [h, List.mem_singleton] at hs
    exact hcs c (hs ▸ hc)
  · rw [h] at hs
    rcases List.mem_cons.1 hs with rfl | hs
    · exact hhead c hc
    · exact not_isSeparator_of_mem_segments hs hc
termination_by cs.length
decreasing_by simp [he]; omega

theorem segments_joinNames : ∀ {names : List (List Char)}, names ≠ [] →
    (∀ name ∈ names, ∀ c ∈ name, isSeparator c = false) → segments (joinNames names) = names
  | [], hne, _ => absurd rfl hne
  | [name], _, h => by
    rw [joinNames, List.intercalate_singleton]
    exact List.splitOnP_eq_singleton (h name List.mem_cons_self)
  | name :: next :: names, _, h => by
    have ih := segments_joinNames (List.cons_ne_nil next names)
      fun name hname => h name (List.mem_cons_of_mem _ hname)
    rw [joinNames, List.intercalate_cons_cons, List.append_assoc, List.singleton_append, segments,
      List.splitOnP_append_cons_of_forall_mem (h name List.mem_cons_self) '\\' (by decide)]
    exact congrArg _ ih

/-! ## Climbing -/

section Steps

variable (names path)

theorem resolveFrom_skip (h : segment = [] ∨ segment = ['.']) :
    resolveFrom names (segment :: path) = resolveFrom names path := by
  simp [resolveFrom, h]

theorem resolveFrom_plain (h : isPlain segment) :
    resolveFrom names (segment :: path) = resolveFrom (segment :: names) path := by
  simp [resolveFrom, isPlain_iff.1 h]

theorem resolveFrom_climb (name : List Char) :
    resolveFrom (name :: names) (['.', '.'] :: path) = resolveFrom names path := by
  simp [resolveFrom]

theorem resolveFrom_escape : resolveFrom [] (['.', '.'] :: path) = none := by
  simp [resolveFrom]

theorem walk_skip (h : segment = [] ∨ segment = ['.']) :
    walk names (segment :: path) = walk names path := by
  simp [walk, enter, h]

theorem walk_plain (h : isPlain segment) :
    walk names (segment :: path) = walk (segment :: names) path := by
  simp [walk, enter, isPlain_iff.1 h]

theorem walk_climb : walk names (['.', '.'] :: path) = walk names.tail path := by
  simp [walk, enter]

end Steps

theorem overdraws_cons {n : Nat} : Overdraws n (segment :: path) ↔
    ∃ start, start <+: path
      ∧ n + (segment :: start).countP isPlain < (segment :: start).count ['.', '.'] := by
  constructor
  · rintro ⟨start, hstart, hlt⟩
    rcases List.prefix_cons_iff.1 hstart with rfl | ⟨rest, rfl, hrest⟩
    · simp at hlt
    · exact ⟨rest, hrest, hlt⟩
  · rintro ⟨start, hstart, hlt⟩
    exact ⟨segment :: start, (List.prefix_cons_inj segment).2 hstart, hlt⟩

theorem overdraws_skip {n : Nat} (h : segment = [] ∨ segment = ['.']) :
    Overdraws n (segment :: path) ↔ Overdraws n path := by
  have hneither : ¬ isPlain segment ∧ segment ≠ ['.', '.'] := by rcases h with rfl | rfl <;> decide
  rw [overdraws_cons]
  simp only [List.countP_cons_of_neg hneither.1, List.count_cons_of_ne hneither.2, Overdraws]

theorem overdraws_plain {n : Nat} (h : isPlain segment) :
    Overdraws n (segment :: path) ↔ Overdraws (n + 1) path := by
  rw [overdraws_cons]
  simp only [List.countP_cons_of_pos h, List.count_cons_of_ne (isPlain_iff.1 h).2.2, Overdraws,
    Nat.add_right_comm n 1, Nat.add_assoc]

theorem overdraws_climb {n : Nat} : Overdraws (n + 1) (['.', '.'] :: path) ↔ Overdraws n path := by
  have hplain : ¬ isPlain ['.', '.'] := by decide
  rw [overdraws_cons]
  simp only [List.countP_cons_of_neg hplain, List.count_cons_self, Nat.add_right_comm n 1,
    Nat.add_lt_add_iff_right, Overdraws]

theorem overdraws_escape : Overdraws 0 (['.', '.'] :: path) :=
  overdraws_cons.2 ⟨[], List.nil_prefix, by decide⟩

theorem resolveFrom_eq_none_iff : ∀ (path : List (List Char)) {names : List (List Char)},
    resolveFrom names path = none ↔ Overdraws names.length path
  | [], names => by simp [resolveFrom, Overdraws]
  | segment :: path, names => by
    rcases segment_cases segment with hskip | rfl | hplain
    · rw [resolveFrom_skip _ _ hskip, overdraws_skip hskip, resolveFrom_eq_none_iff path]
    · rcases names with _ | ⟨name, outer⟩
      · exact iff_of_true (resolveFrom_escape path) overdraws_escape
      · rw [resolveFrom_climb, List.length_cons, overdraws_climb, resolveFrom_eq_none_iff path]
    · rw [resolveFrom_plain _ _ hplain, overdraws_plain hplain, resolveFrom_eq_none_iff path,
        List.length_cons]

theorem resolve_eq_none_iff : resolve cs = none ↔ Escapes (segments cs) := by
  rw [resolve, resolveFrom_eq_none_iff]
  simp [Overdraws, Escapes]

/-! ## Where paths lead -/

theorem walk_of_resolveFrom : ∀ (path : List (List Char)) {names : List (List Char)},
    resolveFrom names path = some result →
    ∀ base, walk (names ++ base) path = result.reverse ++ base
  | [], names, h, base => by
    cases h
    rw [List.reverse_reverse]
    rfl
  | segment :: path, names, h, base => by
    rcases segment_cases segment with hskip | rfl | hplain
    · rw [resolveFrom_skip _ _ hskip] at h
      rw [walk_skip _ _ hskip]
      exact walk_of_resolveFrom path h base
    · rcases names with _ | ⟨name, outer⟩
      · simp [resolveFrom_escape] at h
      · rw [resolveFrom_climb] at h
        rw [walk_climb]
        exact walk_of_resolveFrom path h base
    · rw [resolveFrom_plain _ _ hplain] at h
      rw [walk_plain _ _ hplain]
      exact walk_of_resolveFrom path h base

theorem walk_of_resolve (h : resolve cs = some result) (base : List (List Char)) :
    walk base (segments cs) = result.reverse ++ base :=
  walk_of_resolveFrom (segments cs) h base

/-- Names lead down from any place. -/
theorem walk_plains : ∀ {names : List (List Char)}, (∀ name ∈ names, isPlain name) →
    ∀ base, walk base names = names.reverse ++ base
  | [], _, _ => rfl
  | name :: names, h, base => by
    rw [walk_plain _ _ (h name List.mem_cons_self),
      walk_plains fun other ho => h other (List.mem_cons_of_mem _ ho)]
    simp

theorem mem_of_resolveFrom : ∀ (path : List (List Char)) {names : List (List Char)},
    resolveFrom names path = some result →
    ∀ name ∈ result, name ∈ names ∨ (name ∈ path ∧ isPlain name)
  | [], names, h, name, hname => by
    cases h
    exact .inl (List.mem_reverse.1 hname)
  | segment :: path, names, h, name, hname => by
    rcases segment_cases segment with hskip | rfl | hplain
    · rw [resolveFrom_skip _ _ hskip] at h
      exact (mem_of_resolveFrom path h name hname).imp_right
        fun hmem => ⟨List.mem_cons_of_mem _ hmem.1, hmem.2⟩
    · rcases names with _ | ⟨outermost, outer⟩
      · simp [resolveFrom_escape] at h
      · rw [resolveFrom_climb] at h
        exact (mem_of_resolveFrom path h name hname).imp (List.mem_cons_of_mem _)
          fun hmem => ⟨List.mem_cons_of_mem _ hmem.1, hmem.2⟩
    · rw [resolveFrom_plain _ _ hplain] at h
      rcases mem_of_resolveFrom path h name hname with hmem | hmem
      · rcases List.mem_cons.1 hmem with rfl | hmem
        · exact .inr ⟨List.mem_cons_self, hplain⟩
        · exact .inl hmem
      · exact .inr ⟨List.mem_cons_of_mem _ hmem.1, hmem.2⟩

theorem mem_of_resolve (h : resolve cs = some names) (hname : name ∈ names) :
    name ∈ segments cs ∧ isPlain name :=
  (mem_of_resolveFrom (segments cs) h name hname).resolve_left List.not_mem_nil

/-! ## Normal forms -/

/-- What is left of a path is legal as a whole if there is something left, it is not too long and
each name in it is legal. -/
theorem isLong_joinNames_iff (h : ∀ name ∈ names, isPlain name)
    (hs : ∀ name ∈ names, ∀ c ∈ name, isSeparator c = false) :
    isLong wildcards true (String.ofList (joinNames names))
      ↔ names ≠ [] ∧ (joinNames names).length ≤ 259 ∧ ∀ name ∈ names, isLongName wildcards name := by
  rcases names with _ | ⟨first, rest⟩
  · simp [isLong, joinNames]
  · have hne : first :: rest ≠ [] := List.cons_ne_nil _ _
    have hlegal : ∀ name ∈ first :: rest,
        (isLegalSegment wildcards name ↔ isLongName wildcards name) := by
      intro name hname
      simp [isLegalSegment, isPlain_iff.1 (h name hname)]
    have hfilter : (first :: rest).filter (· ≠ []) = first :: rest := by
      refine List.filter_eq_self.2 fun name hname => ?_
      simpa using (isPlain_iff.1 (h name hname)).1
    obtain ⟨c, tail, hfirst⟩ : ∃ c tail, first = c :: tail :=
      List.exists_cons_of_ne_nil (isPlain_iff.1 (h first List.mem_cons_self)).1
    have hmem : c ∈ joinNames (first :: rest) := by
      rcases rest with _ | ⟨next, rest⟩
      · simp [joinNames, hfirst]
      · simp [joinNames, hfirst, List.intercalate_cons_cons]
    have hany : (joinNames (first :: rest)).any (!isSeparator ·) := by
      have hc := hs first List.mem_cons_self c (by simp [hfirst])
      exact List.any_eq_true.2 ⟨c, hmem, by simp [hc]⟩
    simp only [isLong, String.toList_ofList, if_true, isRelativePath, segments_joinNames hne hs,
      hfilter, hany, Bool.and_true, Bool.and_eq_true, decide_eq_true_eq, List.all_eq_true, maxLength]
    rw [and_assoc]
    refine and_congr (iff_of_true (List.ne_nil_of_mem hmem) hne) (and_congr_right fun _ => ?_)
    exact forall₂_congr hlegal

theorem Normal.ne_empty {s : String} (h : Normal wildcards s) : s ≠ "" := by
  rintro rfl
  exact absurd (h.plain [] (by simp [segments])).1 (by decide)

end Filename

namespace Coercion

open Filename

variable {wildcards : Bool} {a : Attribute} {r : String}

/-- A path is resolved, and the names it comes to are checked. -/
theorem path_cases (wildcards : Bool) (hblank : Text.allBlank a.value = false)
    (hloc : Variable.isLocalization a.value = false) :
    resolve a.value.toList = none
        ∧ (longName wildcards true).Refuses a "" (.escapingPath a.value)
      ∨ ∃ names, resolve a.value.toList = some names
        ∧ (isLong wildcards true (String.ofList (joinNames names))
            ∧ (∃ odd, (longName wildcards true).Accepts a (String.ofList (joinNames names)) odd)
          ∨ isLong wildcards true (String.ofList (joinNames names)) = false
            ∧ (longName wildcards true).Refuses a "" (.illegalLongName a.value)) := by
  obtain ⟨hb, -⟩ | ⟨-, ⟨hl, -⟩ | ⟨-, ⟨hname, h⟩ | ⟨name, hname, h⟩⟩⟩ :=
    longName_cases wildcards true a
  · simp [hblank] at hb
  · simp [hloc] at hl
  · exact .inl ⟨by simpa [normalName?] using hname, h⟩
  · simp only [normalName?, if_true, Option.map_eq_some_iff] at hname
    obtain ⟨names, hnames, rfl⟩ := hname
    refine .inr ⟨names, hnames, ?_⟩
    obtain ⟨hlong, h⟩ | ⟨hlong, h⟩ := h
    · exact .inl ⟨hlong, _, h⟩
    · exact .inr ⟨hlong, h⟩

theorem path_valid_iff_names {loc : Location} {u : SourceUnit}
    (hblank : Text.allBlank a.value = false) (hloc : Variable.isLocalization a.value = false) :
    (SourceUnit.readAttribute (longName wildcards true) loc a u).1 = .valid r
      ↔ ∃ names, resolve a.value.toList = some names ∧ isLong wildcards true r
        ∧ r = String.ofList (joinNames names) := by
  obtain ⟨hnames, h⟩ | ⟨names, hnames, ⟨hlong, odd, h⟩ | ⟨hlong, h⟩⟩ :=
    path_cases wildcards hblank hloc
  · rw [h.eq]
    simp [hnames]
  · rw [h.eq]
    simp only [Outcome.valid.injEq, hnames, Option.some.injEq, exists_eq_left']
    constructor
    · rintro rfl
      exact ⟨hlong, rfl⟩
    · exact fun h => h.2.symm
  · rw [h.eq]
    simp only [hnames, Option.some.injEq, exists_eq_left']
    refine iff_of_false (by simp) ?_
    rintro ⟨hr, rfl⟩
    simp [hlong] at hr

/-- A path is read as the text in normal form that leads where the path leads, from every place. -/
theorem path_valid_iff {loc : Location} {u : SourceUnit} (hblank : Text.allBlank a.value = false)
    (hloc : Variable.isLocalization a.value = false) :
    (SourceUnit.readAttribute (longName wildcards true) loc a u).1 = .valid r
      ↔ ¬ Escapes (segments a.value.toList) ∧ Normal wildcards r
        ∧ ∀ base, walk base (segments a.value.toList) = walk base (segments r.toList) := by
  rw [path_valid_iff_names hblank hloc, ← resolve_eq_none_iff]
  constructor
  · rintro ⟨names, hnames, hlong, rfl⟩
    have hplain : ∀ name ∈ names, isPlain name := fun name hname => (mem_of_resolve hnames hname).2
    have hseparators : ∀ name ∈ names, ∀ c ∈ name, isSeparator c = false :=
      fun name hname c hc => not_isSeparator_of_mem_segments (mem_of_resolve hnames hname).1 hc
    obtain ⟨hne, hlen, hlegal⟩ := (isLong_joinNames_iff hplain hseparators).1 hlong
    have hsegments := segments_joinNames hne hseparators
    refine ⟨by simp [hnames], ⟨?_, ?_, ?_⟩, fun base => ?_⟩
    · rw [String.toList_ofList, hsegments]
    · rw [String.toList_ofList, hsegments]
      exact fun name hname => ⟨hplain name hname, hlegal name hname⟩
    · rwa [← String.length_toList, String.toList_ofList]
    · rw [String.toList_ofList, hsegments, walk_of_resolve hnames, walk_plains hplain]
  · rintro ⟨hsome, hnormal, hwalk⟩
    obtain ⟨names, hnames⟩ := Option.ne_none_iff_exists'.1 hsome
    have hplain := fun name hname => (hnormal.plain name hname).1
    -- from the top, both lead to the names they consist of
    have heq : names = segments r.toList := by
      have htop := hwalk []
      rw [walk_of_resolve hnames, walk_plains hplain] at htop
      simpa using htop
    have hr : r = String.ofList (joinNames (segments r.toList)) := by
      rw [← hnormal.joined, String.ofList_toList]
    refine ⟨names, hnames, ?_, heq ▸ hr⟩
    rw [hr, isLong_joinNames_iff hplain fun name hname c hc =>
      not_isSeparator_of_mem_segments hname hc]
    refine ⟨List.splitOnP_ne_nil _ _, ?_, fun name hname => (hnormal.plain name hname).2⟩
    rw [← hnormal.joined, String.length_toList]
    exact hnormal.length_le

/-- A path that climbs above its root is the one fault that is reported as such. -/
theorem path_reports (wildcards : Bool) (hblank : Text.allBlank a.value = false)
    (hloc : Variable.isLocalization a.value = false) (loc : Location) (u : SourceUnit) :
    ∃ reports,
      (SourceUnit.readAttribute (longName wildcards true) loc a u).2 = u.withReports reports
      ∧ ((∃ d ∈ reports, d.code.map Code.text = some "E008")
        ↔ Escapes (segments a.value.toList)) := by
  rw [← resolve_eq_none_iff]
  obtain ⟨hnames, h⟩ | ⟨names, hnames, ⟨-, odd, h⟩ | ⟨-, h⟩⟩ := path_cases wildcards hblank hloc
  · rw [h.eq, hnames]
    exact ⟨_, rfl, iff_of_true ⟨_, List.mem_cons_self, rfl⟩ rfl⟩
  · rw [h.eq, hnames]
    refine ⟨_, rfl, iff_of_false ?_ (by simp)⟩
    rintro ⟨d, hd, hcode⟩
    obtain ⟨o, -, rfl⟩ := List.mem_map.1 hd
    cases o <;> simp [Problem.report, Problem.wording, ValueCaution.wording, Code.text] at hcode
  · rw [h.eq, hnames]
    refine ⟨_, rfl, iff_of_false ?_ (by simp)⟩
    simp [Problem.report, Problem.wording, ValueFault.wording, Code.text]

/-- Of a text that is neither blank nor localized, the segments between `\` and `/` make a relative
path. It is reported as climbing above its root exactly if some of its first segments hold more `..`
than names. It is read as `r` exactly if it does not climb there, `r` consists of legal names joined
by `\` in at most 259 characters, and from every place both lead to the same place. -/
theorem readAttribute_longName (wildcards : Bool) (loc : Location) (a : Attribute)
    (u : SourceUnit) (hblank : Text.allBlank a.value = false)
    (hloc : Variable.isLocalization a.value = false) :
    ∃ outcome reports, SourceUnit.readAttribute (longName wildcards true) loc a u
        = (outcome, u.withReports reports)
      ∧ ((∃ d ∈ reports, d.code.map Code.text = some "E008")
        ↔ Escapes (segments a.value.toList))
      ∧ ∀ r, outcome = .valid r ↔ ¬ Escapes (segments a.value.toList) ∧ r ≠ ""
        ∧ Normal wildcards r
        ∧ ∀ base, walk base (segments a.value.toList) = walk base (segments r.toList) := by
  obtain ⟨reports, hreports, hescapes⟩ := path_reports wildcards hblank hloc loc u
  refine ⟨_, reports, Prod.ext rfl hreports, hescapes, fun r => ?_⟩
  rw [path_valid_iff hblank hloc]
  exact and_congr_right fun _ => ⟨fun h => ⟨h.1.ne_empty, h⟩, fun h => h.2⟩

section Detour

/-- A path that leaves a directory again, whose name would not be legal. -/
def detour : Attribute :=
  ⟨⟨none, "File"⟩, ⟨none, "Source"⟩, "bin/./ob|j\\..//app.exe"⟩

theorem readAttribute_longName_detour :
    let u : SourceUnit := { catalog := Catalog.empty, content := { id := "Main" } }
    (SourceUnit.readAttribute (longName false true) ⟨"setup.xml", some 1⟩ detour u).1
        = .valid "bin\\app.exe"
      ∧ ¬ Escapes (segments detour.value.toList) ∧ Normal false "bin\\app.exe"
      ∧ ∀ base, walk base (segments detour.value.toList)
        = walk base (segments "bin\\app.exe".toList) := by
  intro u
  have hread : (SourceUnit.readAttribute (longName false true) ⟨"setup.xml", some 1⟩ detour u).1
      = .valid "bin\\app.exe" := by
    decide +kernel
  obtain ⟨outcome, reports, heq, -, hvalid⟩ := readAttribute_longName false ⟨"setup.xml", some 1⟩
    detour u (by decide +kernel) (by decide +kernel)
  obtain ⟨hroot, -, hnormal, hwalk⟩ := (hvalid "bin\\app.exe").1
    ((congrArg Prod.fst heq).symm.trans hread)
  exact ⟨hread, hroot, hnormal, hwalk⟩

end Detour

end Coercion

end InstallerAnalysis
