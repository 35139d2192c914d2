import InstallerAnalysis.Coercion.BundleVariable
import Mathlib.Data.List.Basic

/-!
# The exits of coercions

`Yields` says what a computation comes to that does nothing but report problems. For each coercion
there is a lemma with all its exits: the texts that lead there, what they are read as, and what is
reported on the way (`identifier_cases` and so on). Two exits would give a placeholder without an
error, or with a warning besides, and neither is taken. A number that was found in its range is not
lost when it is narrowed to its width (`number_cases`), and after a warning about a long identifier
the rule for the names of variables refuses nothing (`bundleVariableIdentifier_of_accepts`).
-/

namespace InstallerAnalysis

namespace Problem

variable (loc : Location)

theorem report_location? (p : Problem) : (p.report loc).location? = some loc := by
  simp [report, labels, Diagnostic.location?]

theorem report_value_isError (path : String) (fault : ValueFault) :
    ((Problem.value path fault).report loc).isError := by
  simp [report, severity, Diagnostic.isError]

theorem report_caution_isWarning (path : String) (odd : ValueCaution) :
    ((Problem.caution path odd).report loc).isWarning := by
  simp [report, severity, Diagnostic.isWarning]

end Problem

namespace SourceUnit

variable {α β : Type}

theorem bind_apply (x : Analysis α) (f : α → Analysis β) (u : SourceUnit) :
    (x >>= f) u = f (x u).1 (x u).2 := rfl

theorem get_apply (u : SourceUnit) : (get : Analysis SourceUnit) u = (u, u) := rfl

theorem report_eq (p : Problem) (loc : Location) (u : SourceUnit) :
    report p loc u = ((), u.withReports [p.report loc]) := rfl

/-- In every unit the computation comes to the same value, and all it does is to report the problems
at the location. -/
def Yields (loc : Location) (x : Analysis α) (value : α) (problems : List Problem) : Prop :=
  ∀ u, x u = (value, u.withReports (problems.map (·.report loc)))

namespace Yields

variable {loc : Location} {x : Analysis α} {f : α → Analysis β} {a : α} {b : β}
  {ps qs : List Problem}

theorem pure (a : α) : Yields loc (Pure.pure a) a [] :=
  fun _ => rfl

theorem bind (hx : Yields loc x a ps) (hf : Yields loc (f a) b qs) :
    Yields loc (x >>= f) b (ps ++ qs) := by
  intro u
  rw [bind_apply, hx u, List.map_append, withReports_append]
  exact hf _

theorem bind_silent (hx : Yields loc x a ps) (hf : Yields loc (f a) b []) :
    Yields loc (x >>= f) b ps := by
  simpa using hx.bind hf

theorem report (p : Problem) : Yields loc (SourceUnit.report p loc) () [p] :=
  report_eq p loc

/-- What is wrong is reported, and that is the end. -/
theorem refuse (p : Problem) (a : α) :
    Yields loc (SourceUnit.report p loc >>= fun _ => Pure.pure a) a [p] :=
  (report p).bind_silent (pure a)

theorem warn (c : Prop) [Decidable c] (path : String) (odd : ValueCaution) (a : α) :
    Yields loc
      (if c then SourceUnit.report (.caution path odd) loc >>= fun _ => Pure.pure a
        else Pure.pure a)
      a ((if c then some odd else none).toList.map (.caution path)) := by
  split_ifs
  · exact refuse _ _
  · exact pure _

end Yields

end SourceUnit

namespace Coercion

open SourceUnit (Yields readAttribute)

section Exits

variable {α : Type} (c : Coercion α) (a : Attribute)

/-- The attribute is read as the value, and all that is reported is what may be odd about it. -/
def Accepts (value : α) (odd : Option ValueCaution) : Prop :=
  ∀ loc, Yields loc (readAttribute c loc a) (.valid value) (odd.toList.map (.caution a.path))

/-- The value stands in for the attribute, and all that is reported is what is wrong with it. -/
def Refuses (standIn : α) (fault : ValueFault) : Prop :=
  ∀ loc, Yields loc (readAttribute c loc a) (.placeholder standIn) [.value a.path fault]

end Exits

section

variable {α : Type} {c : Coercion α} {a : Attribute} {value : α} {odd : Option ValueCaution}
  {fault : ValueFault}

theorem Accepts.eq (h : c.Accepts a value odd) (loc : Location) (u : SourceUnit) :
    readAttribute c loc a u = (.valid value,
      u.withReports (odd.toList.map fun o => (Problem.caution a.path o).report loc)) := by
  rw [h loc u, List.map_map]
  rfl

theorem Accepts.eq_self (h : c.Accepts a value none) (loc : Location) (u : SourceUnit) :
    readAttribute c loc a u = (.valid value, u) :=
  h loc u

theorem Refuses.eq (h : c.Refuses a value fault) (loc : Location) (u : SourceUnit) :
    readAttribute c loc a u
      = (.placeholder value, u.withReports [(Problem.value a.path fault).report loc]) :=
  h loc u

end

/-! ## Texts -/

variable {α : Type} {a : Attribute}

theorem text_cases (rule : BlankRule) (a : Attribute) :
    rule.refuses a.value ∧ (text rule).Refuses a "" .empty
      ∨ rule.refuses a.value = false ∧ (text rule).Accepts a a.value none := by
  cases h : rule.refuses a.value
  · refine .inr ⟨rfl, fun loc => ?_⟩
    simp only [readAttribute, text, h]
    exact .pure _
  · refine .inl ⟨rfl, fun loc => ?_⟩
    simp only [readAttribute, text, h]
    exact .refuse _ _

/-- A blank text is refused, and otherwise reading goes on with the text as it is. -/
theorem ofText_cases (standIn : α) (next : Location → Attribute → String → Analysis (Outcome α))
    (a : Attribute) :
    Text.allBlank a.value ∧ (ofText standIn next).Refuses a standIn .empty
      ∨ Text.allBlank a.value = false
        ∧ ∀ loc, readAttribute (ofText standIn next) loc a = next loc a a.value := by
  obtain ⟨hblank, h⟩ | ⟨hblank, h⟩ := text_cases .refuseBlank a
  · exact .inl ⟨hblank, fun loc => (h loc).bind_silent (.pure _)⟩
  · refine .inr ⟨hblank, fun loc => ?_⟩
    funext u
    rw [readAttribute, ofText, SourceUnit.bind_apply, h.eq_self]

/-! ## Identifiers -/

theorem identifier_cases (a : Attribute) :
    Text.allBlank a.value ∧ identifier.Refuses a Identifier.placeholder .empty
      ∨ Text.allBlank a.value = false
        ∧ ((∃ fault, readAccess a.value = .error fault
            ∧ identifier.Refuses a Identifier.placeholder fault)
          ∨ ∃ access id, readAccess a.value = .ok (access, id)
            ∧ (Identifier.isLegal id = false
                ∧ identifier.Refuses a Identifier.placeholder (.illegalIdentifier id)
              ∨ Identifier.isLegal id ∧ identifier.Accepts a ⟨access, id⟩
                (if Identifier.maxLength < id.length then some (.longIdentifier id)
                  else none))) := by
  obtain hblank | ⟨hblank, hnext⟩ := ofText_cases Identifier.placeholder _ a
  · exact .inl hblank
  refine .inr ⟨hblank, ?_⟩
  rcases hread : readAccess a.value with fault | ⟨access, id⟩
  · refine .inl ⟨fault, rfl, fun loc => ?_⟩
    rw [identifier, hnext, hread]
    exact .refuse _ _
  · refine .inr ⟨access, id, rfl, ?_⟩
    cases hlegal : Identifier.isLegal id
    · refine .inl ⟨rfl, fun loc => ?_⟩
      rw [identifier, hnext, hread]
      simp only [hlegal]
      exact .refuse _ _
    · refine .inr ⟨rfl, fun loc => ?_⟩
      rw [identifier, hnext, hread]
      simp only [hlegal, if_true]
      exact .warn _ _ _ _

theorem identifierText_of_accepts {i : Identifier} {odd : Option ValueCaution}
    (h : identifier.Accepts a i odd) : identifierText.Accepts a i.id odd :=
  fun loc => (h loc).bind_silent (.pure _)

theorem identifierText_of_refuses {i : Identifier} {fault : ValueFault}
    (h : identifier.Refuses a i fault) : identifierText.Refuses a i.id fault :=
  fun loc => (h loc).bind_silent (.pure _)

/-! ## Numbers -/

/-- The number of 64 bits that a text states. -/
def long? (s : String) : Option Int :=
  (Text.readInt (Text.strip s.toList)).filter (Text.fitsSigned 64)

section Numbers

variable {bits : Nat} {minimum maximum : Int} {reserved : List Int}

theorem wideNumber_cases (minimum maximum : Int) (reserved : List Int) (a : Attribute) :
    Text.allBlank a.value
        ∧ (wideNumber minimum maximum reserved).Refuses a (illegal 64) .empty
      ∨ Text.allBlank a.value = false
        ∧ (long? a.value = none
            ∧ (wideNumber minimum maximum reserved).Refuses a (illegal 64) (.notInteger a.value)
          ∨ ∃ n, long? a.value = some n
            ∧ (n ∈ reserved
                ∧ (wideNumber minimum maximum reserved).Refuses a (illegal 64) (.reservedInteger n)
              ∨ n ∉ reserved ∧ (minimum ≤ n ∧ n ≤ maximum)
                ∧ (wideNumber minimum maximum reserved).Accepts a n none
              ∨ n ∉ reserved ∧ ¬ (minimum ≤ n ∧ n ≤ maximum)
                ∧ (wideNumber minimum maximum reserved).Refuses a (illegal 64)
                  (.outOfRange n minimum maximum))) := by
  obtain hblank | ⟨hblank, hnext⟩ := ofText_cases (illegal 64) _ a
  · exact .inl hblank
  refine .inr ⟨hblank, ?_⟩
  rcases hread : long? a.value with _ | n
  · refine .inl ⟨rfl, fun loc => ?_⟩
    rw [wideNumber, hnext, ← long?, hread]
    exact .refuse _ _
  · refine .inr ⟨n, rfl, ?_⟩
    by_cases hreserved : n ∈ reserved
    · refine .inl ⟨hreserved, fun loc => ?_⟩
      rw [wideNumber, hnext, ← long?, hread]
      simp only [List.contains_iff_mem, hreserved, if_true]
      exact .refuse _ _
    · by_cases hrange : minimum ≤ n ∧ n ≤ maximum
      · refine .inr (.inl ⟨hreserved, hrange, fun loc => ?_⟩)
        rw [wideNumber, hnext, ← long?, hread]
        simp only [List.contains_iff_mem, hreserved, if_false, if_pos hrange]
        exact .pure _
      · refine .inr (.inr ⟨hreserved, hrange, fun loc => ?_⟩)
        rw [wideNumber, hnext, ← long?, hread]
        simp only [List.contains_iff_mem, hreserved, if_false, if_neg hrange]
        exact .refuse _ _

/-- What was refused in 64 bits is refused, for the same cause. -/
theorem number_of_refuses {fault : ValueFault}
    (h : (wideNumber minimum maximum [unset bits, illegal bits]).Refuses a (illegal 64) fault) :
    (number bits minimum maximum).Refuses a (illegal bits) fault :=
  fun loc => (h loc).bind_silent (.pure _)

/-- A number is kept if it has the width, and is lost without a report if it has not. -/
theorem number_of_accepts {n : Int}
    (h : (wideNumber minimum maximum [unset bits, illegal bits]).Accepts a n none)
    (loc : Location) : Yields loc (readAttribute (number bits minimum maximum) loc a)
      (if Text.fitsSigned bits n then .valid n else .placeholder (illegal bits)) [] := by
  refine (h loc).bind_silent ?_
  simp only [Outcome.valid?, Option.filter_some]
  split_ifs
  · exact .pure _
  · exact .pure _

/-- Where the range lies within the width, no number is lost. -/
theorem number_cases (hwidth : ∀ n, minimum ≤ n → n ≤ maximum → Text.fitsSigned bits n)
    (a : Attribute) :
    Text.allBlank a.value ∧ (number bits minimum maximum).Refuses a (illegal bits) .empty
      ∨ Text.allBlank a.value = false
        ∧ (long? a.value = none
            ∧ (number bits minimum maximum).Refuses a (illegal bits) (.notInteger a.value)
          ∨ ∃ n, long? a.value = some n
            ∧ ((n = unset bits ∨ n = illegal bits)
                ∧ (number bits minimum maximum).Refuses a (illegal bits) (.reservedInteger n)
              ∨ ¬ (n = unset bits ∨ n = illegal bits) ∧ (minimum ≤ n ∧ n ≤ maximum)
                ∧ (number bits minimum maximum).Accepts a n none
              ∨ ¬ (n = unset bits ∨ n = illegal bits) ∧ ¬ (minimum ≤ n ∧ n ≤ maximum)
                ∧ (number bits minimum maximum).Refuses a (illegal bits)
                  (.outOfRange n minimum maximum))) := by
  have hmem : ∀ n, n ∈ [unset bits, illegal bits] ↔ n = unset bits ∨ n = illegal bits := by simp
  simp only [← hmem]
  obtain ⟨hblank, h⟩ | ⟨hblank, ⟨hread, h⟩ | ⟨n, hread, hn⟩⟩ :=
    wideNumber_cases minimum maximum [unset bits, illegal bits] a
  · exact .inl ⟨hblank, number_of_refuses h⟩
  · exact .inr ⟨hblank, .inl ⟨hread, number_of_refuses h⟩⟩
  · refine .inr ⟨hblank, .inr ⟨n, hread, ?_⟩⟩
    obtain ⟨hreserved, h⟩ | ⟨hreserved, hrange, h⟩ | ⟨hreserved, hrange, h⟩ := hn
    · exact .inl ⟨hreserved, number_of_refuses h⟩
    · refine .inr (.inl ⟨hreserved, hrange, fun loc => ?_⟩)
      have hkept := number_of_accepts h loc
      rwa [if_pos (hwidth n hrange.1 hrange.2)] at hkept
    · exact .inr (.inr ⟨hreserved, hrange, number_of_refuses h⟩)

/-- A number that was read is not reserved, and in the range that was asked for. -/
theorem number_valid (hwidth : ∀ n, minimum ≤ n → n ≤ maximum → Text.fitsSigned bits n) {n : Int}
    {loc : Location} {u : SourceUnit}
    (hvalid : (readAttribute (number bits minimum maximum) loc a u).1 = .valid n) :
    ¬ (n = unset bits ∨ n = illegal bits) ∧ minimum ≤ n ∧ n ≤ maximum := by
  obtain ⟨-, h⟩ | ⟨-, ⟨-, h⟩ | ⟨m, -, ⟨-, h⟩ | ⟨hreserved, hrange, h⟩ | ⟨-, -, h⟩⟩⟩ :=
    number_cases hwidth a
  all_goals
    rw [h.eq] at hvalid
    cases hvalid
  exact ⟨hreserved, hrange⟩

end Numbers

/-! ## GUIDs -/

theorem guid_cases (generatable mayBeEmpty : Bool) (a : Attribute) :
    Text.trim a.value = ""
        ∧ (mayBeEmpty = true ∧ (guid generatable mayBeEmpty).Accepts a "" none
          ∨ mayBeEmpty = false ∧ (guid generatable mayBeEmpty).Refuses a "" .empty)
      ∨ Text.trim a.value ≠ ""
        ∧ ((generatable = true ∧ Text.trim a.value = "*" ∨ Variable.isDeferred (Text.trim a.value))
            ∧ (guid generatable mayBeEmpty).Accepts a (Text.trim a.value) none
          ∨ ¬ (generatable = true ∧ Text.trim a.value = "*")
            ∧ Variable.isDeferred (Text.trim a.value) = false
            ∧ ((∃ g, Guid.parse? (Text.trim a.value) = some g
                ∧ (guid generatable mayBeEmpty).Accepts a g.text none)
              ∨ Guid.parse? (Text.trim a.value) = none
                ∧ (guid generatable mayBeEmpty).Refuses a ""
                  (.illegalGuid (Text.trim a.value)))) := by
  unfold Accepts Refuses
  simp only [readAttribute, guid, Bool.and_eq_true, decide_eq_true_eq, String.isEmpty_iff]
  by_cases hempty : Text.trim a.value = ""
  · simp only [if_pos hempty]
    cases mayBeEmpty
    · exact .inl ⟨hempty, .inr ⟨rfl, fun loc => .refuse _ _⟩⟩
    · exact .inl ⟨hempty, .inl ⟨rfl, fun loc => .pure _⟩⟩
  simp only [if_neg hempty]
  refine .inr ⟨hempty, ?_⟩
  by_cases hstar : generatable = true ∧ Text.trim a.value = "*"
  · simp only [if_pos hstar]
    exact .inl ⟨.inl hstar, fun loc => .pure _⟩
  simp only [if_neg hstar]
  cases hdeferred : Variable.isDeferred (Text.trim a.value)
  · refine .inr ⟨hstar, rfl, ?_⟩
    rcases Guid.parse? (Text.trim a.value) with _ | g
    · exact .inr ⟨rfl, fun loc => .refuse _ _⟩
    · exact .inl ⟨g, rfl, fun loc => .pure _⟩
  · exact .inl ⟨.inr rfl, fun loc => .pure _⟩

/-! ## File names -/

theorem longName_cases (wildcards relative : Bool) (a : Attribute) :
    Text.allBlank a.value ∧ (longName wildcards relative).Refuses a "" .empty
      ∨ Text.allBlank a.value = false
        ∧ (Variable.isLocalization a.value
            ∧ (longName wildcards relative).Accepts a a.value none
          ∨ Variable.isLocalization a.value = false
            ∧ (normalName? relative a.value = none
                ∧ (longName wildcards relative).Refuses a "" (.escapingPath a.value)
              ∨ ∃ name, normalName? relative a.value = some name
                ∧ (Filename.isLong wildcards relative name
                    ∧ (longName wildcards relative).Accepts a name
                      (if Filename.looksGenerated name then some (.generatedShortName a.value)
                        else none)
                  ∨ Filename.isLong wildcards relative name = false
                    ∧ (longName wildcards relative).Refuses a "" (.illegalLongName a.value)))) := by
  obtain hblank | ⟨hblank, hnext⟩ := ofText_cases "" _ a
  · exact .inl hblank
  refine .inr ⟨hblank, ?_⟩
  cases hloc : Variable.isLocalization a.value
  · refine .inr ⟨rfl, ?_⟩
    rcases hname : normalName? relative a.value with _ | name
    · refine .inl ⟨rfl, fun loc => ?_⟩
      rw [longName, hnext]
      simp only [hloc, hname]
      exact .refuse _ _
    · refine .inr ⟨name, rfl, ?_⟩
      cases hlong : Filename.isLong wildcards relative name
      · refine .inr ⟨rfl, fun loc => ?_⟩
        rw [longName, hnext]
        simp only [hloc, hname, hlong]
        exact .refuse _ _
      · refine .inl ⟨rfl, fun loc => ?_⟩
        rw [longName, hnext]
        simp only [hloc, hname, hlong]
        exact .warn _ _ _ _
  · refine .inl ⟨rfl, fun loc => ?_⟩
    rw [longName, hnext]
    simp only [hloc]
    exact .pure _

/-! ## Choices -/

theorem registryRoot_cases (machineOrUser : Bool) (a : Attribute) :
    Text.allBlank a.value ∧ (registryRoot machineOrUser).Refuses a none .empty
      ∨ Text.allBlank a.value = false
        ∧ ((∃ root, Registry.Root.ofText? a.value = some root
            ∧ (machineOrUser = true ∨ root ≠ .machineOrUser)
            ∧ (registryRoot machineOrUser).Accepts a (some root) none)
          ∨ (∀ root, Registry.Root.ofText? a.value = some root →
              machineOrUser = false ∧ root = .machineOrUser)
            ∧ (registryRoot machineOrUser).Refuses a none
              (.illegalRegistryRoot a.value machineOrUser)) := by
  obtain hblank | ⟨hblank, hnext⟩ := ofText_cases (none : Option Registry.Root) _ a
  · exact .inl hblank
  refine .inr ⟨hblank, ?_⟩
  rcases hread : (Registry.Root.ofText? a.value).filter
    fun root => machineOrUser || root ≠ .machineOrUser with _ | root
  · refine .inr ⟨by simpa [Option.filter_eq_none_iff] using hread, fun loc => ?_⟩
    rw [registryRoot, hnext, hread]
    exact .refuse _ _
  · rw [Option.filter_eq_some_iff] at hread
    refine .inl ⟨root, hread.1, by simpa using hread.2, fun loc => ?_⟩
    rw [registryRoot, hnext, Option.filter_eq_some_iff.2 hread]
    exact .pure _

theorem version_cases (a : Attribute) :
    Text.allBlank a.value ∧ version.Refuses a none .empty
      ∨ Text.allBlank a.value = false
        ∧ ((Version.parse? a.value).isSome ∧ version.Accepts a (some (.numeric a.value)) none
          ∨ Version.parse? a.value = none
            ∧ (Variable.isBinder a.value ∧ version.Accepts a (some (.bound a.value)) none
              ∨ Variable.isBinder a.value = false
                ∧ version.Refuses a none (.illegalVersion a.value))) := by
  obtain hblank | ⟨hblank, hnext⟩ := ofText_cases (none : Option VersionText) _ a
  · exact .inl hblank
  refine .inr ⟨hblank, ?_⟩
  rcases hread : Version.parse? a.value with _ | parts
  · refine .inr ⟨rfl, ?_⟩
    cases hbinder : Variable.isBinder a.value
    · refine .inr ⟨rfl, fun loc => ?_⟩
      rw [version, hnext, hread]
      simp only [hbinder]
      exact .refuse _ _
    · refine .inl ⟨rfl, fun loc => ?_⟩
      rw [version, hnext, hread]
      simp only [hbinder]
      exact .pure _
  · refine .inl ⟨rfl, fun loc => ?_⟩
    rw [version, hnext, hread]
    exact .pure _

theorem choice_cases (standIn : α) (choices : List (String × α)) (withDefault : Bool)
    (a : Attribute) :
    Text.allBlank a.value ∧ (choice standIn choices withDefault).Refuses a standIn .empty
      ∨ Text.allBlank a.value = false
        ∧ ((∃ value, choices.lookup a.value = some value
            ∧ (choice standIn choices withDefault).Accepts a value none)
          ∨ choices.lookup a.value = none
            ∧ (choice standIn choices withDefault).Refuses a standIn
              (.illegalChoice a.value withDefault)) := by
  obtain hblank | ⟨hblank, hnext⟩ := ofText_cases standIn _ a
  · exact .inl hblank
  refine .inr ⟨hblank, ?_⟩
  rcases hread : choices.lookup a.value with _ | value
  · refine .inr ⟨rfl, fun loc => ?_⟩
    rw [choice, hnext, hread]
    exact .refuse _ _
  · refine .inl ⟨value, rfl, fun loc => ?_⟩
    rw [choice, hnext, hread]
    exact .pure _

/-! ## Bundle variables -/

/-- A rule refuses the names it is set against, each with a report, and admits the others. -/
theorem admitVariable_cases (rule : BundleVariable.Rule) (name : String) (a : Attribute) :
    rule.wellKnown = false ∧ name ∈ BundleVariable.wellKnown
        ∧ (∀ loc, Yields loc (admitVariable rule name loc a) false
          [.value a.path (.illegalBundleVariable name .wellKnown)])
      ∨ rule.reserved = false ∧ BundleVariable.reservedStart.toList <+: name.toList
        ∧ (∀ loc, Yields loc (admitVariable rule name loc a) false
          [.value a.path (.illegalBundleVariable name .reserved)])
      ∨ ∀ loc, Yields loc (admitVariable rule name loc a) true [] := by
  unfold admitVariable
  simp only [Bool.and_eq_true, Bool.not_eq_true', List.contains_iff_mem, List.isPrefixOf_iff_prefix]
  by_cases hknown : rule.wellKnown = false ∧ name ∈ BundleVariable.wellKnown
  · simp only [if_pos hknown]
    exact .inl ⟨hknown.1, hknown.2, fun loc => .refuse _ _⟩
  simp only [if_neg hknown]
  by_cases hreserved : rule.reserved = false ∧ BundleVariable.reservedStart.toList <+: name.toList
  · simp only [if_pos hreserved]
    exact .inr (.inl ⟨hreserved.1, hreserved.2, fun loc => .refuse _ _⟩)
  · simp only [if_neg hreserved]
    exact .inr (.inr fun loc => .pure _)

theorem bundleVariable_cases (rule : BundleVariable.Rule) (a : Attribute) :
    Text.allBlank a.value ∧ (bundleVariable rule).Refuses a Identifier.placeholder.id .empty
      ∨ Text.allBlank a.value = false
        ∧ (Identifier.isLegal a.value = false ∧ (bundleVariable rule).Refuses a
            Identifier.placeholder.id (.illegalBundleVariable a.value .grammar)
          ∨ Identifier.isLegal a.value
            ∧ ((bundleVariable rule).Accepts a a.value none
              ∨ ∃ why, (bundleVariable rule).Refuses a Identifier.placeholder.id
                (.illegalBundleVariable a.value why))) := by
  obtain hblank | ⟨hblank, hnext⟩ := ofText_cases Identifier.placeholder.id _ a
  · exact .inl hblank
  refine .inr ⟨hblank, ?_⟩
  cases hlegal : Identifier.isLegal a.value
  · refine .inl ⟨rfl, fun loc => ?_⟩
    rw [bundleVariable, hnext]
    simp only [hlegal]
    exact .refuse _ _
  · refine .inr ⟨rfl, ?_⟩
    -- the one report that a refusal has is that of the rule
    have hrule : ∀ loc, readAttribute (bundleVariable rule) loc a
        = admitVariable rule a.value loc a >>= fun admitted => if admitted then
            pure (.valid a.value) else pure (.placeholder Identifier.placeholder.id) := by
      intro loc
      rw [bundleVariable, hnext]
      simp only [hlegal, if_true]
    unfold Accepts Refuses
    simp only [hrule]
    obtain ⟨-, -, h⟩ | ⟨-, -, h⟩ | h := admitVariable_cases rule a.value a
    · exact .inr ⟨_, fun loc => (h loc).bind_silent (.pure _)⟩
    · exact .inr ⟨_, fun loc => (h loc).bind_silent (.pure _)⟩
    · exact .inl fun loc => (h loc).bind_silent (.pure _)

/-- The rule that comes after an identifier was read is the one that admits all names, so that no
identifier that was reported as too long is refused as well. -/
theorem bundleVariableIdentifier_of_accepts {i : Identifier} {odd : Option ValueCaution}
    (h : identifier.Accepts a i odd) : bundleVariableIdentifier.Accepts a i odd := by
  intro loc
  obtain ⟨hrule, -⟩ | ⟨hrule, -⟩ | hadmits := admitVariable_cases {} i.id a
  · cases hrule
  · cases hrule
  · exact (h loc).bind_silent ((hadmits loc).bind_silent (.pure _))

theorem bundleVariableIdentifier_of_refuses {i : Identifier} {fault : ValueFault}
    (h : identifier.Refuses a i fault) : bundleVariableIdentifier.Refuses a i fault :=
  fun loc => (h loc).bind_silent (.pure _)


end Coercion

end InstallerAnalysis
