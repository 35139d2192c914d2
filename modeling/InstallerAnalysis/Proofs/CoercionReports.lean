import InstallerAnalysis.Proofs.CoercionExits

/-!
# What reading an attribute reports

A value that was read comes with a warning at most, and a placeholder comes with one error. Each
coercion keeps this rule by itself, since each makes its own reports on its own exits: `Ends` says
it of one attribute, and is proved for one coercion after the other. `Accessor` names the coercions
that attributes are read by, with their options, and `readAttribute_contract` is what all of them
promise.
-/

namespace InstallerAnalysis

namespace Coercion

/-- Reading the attribute takes an exit that keeps to the rule. -/
def Ends {α : Type} (c : Coercion α) (a : Attribute) (standIn : α) : Prop :=
  (∃ value odd, c.Accepts a value odd) ∨ ∃ fault, c.Refuses a standIn fault

variable {α : Type}

/-- What an attribute was read as is what it is always read as. -/
theorem Ends.accepts_of_valid {c : Coercion α} {a : Attribute} {standIn value : α} {loc : Location}
    {u : SourceUnit} (h : c.Ends a standIn)
    (hvalid : (SourceUnit.readAttribute c loc a u).1 = .valid value) :
    ∃ odd, c.Accepts a value odd := by
  obtain ⟨value, odd, h⟩ | ⟨fault, h⟩ := h
  · rw [h.eq] at hvalid
    cases hvalid
    exact ⟨odd, h⟩
  · rw [h.eq] at hvalid
    cases hvalid

theorem ends_text (rule : BlankRule) (a : Attribute) : (text rule).Ends a "" := by
  obtain ⟨-, h⟩ | ⟨-, h⟩ := text_cases rule a
  · exact .inr ⟨_, h⟩
  · exact .inl ⟨_, _, h⟩

theorem ends_identifier (a : Attribute) : identifier.Ends a Identifier.placeholder := by
  obtain ⟨-, h⟩ | ⟨-, ⟨fault, -, h⟩ | ⟨access, id, -, ⟨-, h⟩ | ⟨-, h⟩⟩⟩ := identifier_cases a
  · exact .inr ⟨_, h⟩
  · exact .inr ⟨_, h⟩
  · exact .inr ⟨_, h⟩
  · exact .inl ⟨_, _, h⟩

theorem ends_identifierText (a : Attribute) : identifierText.Ends a Identifier.placeholder.id := by
  obtain ⟨i, odd, h⟩ | ⟨fault, h⟩ := ends_identifier a
  · exact .inl ⟨_, _, identifierText_of_accepts h⟩
  · exact .inr ⟨_, identifierText_of_refuses h⟩

theorem ends_number {bits : Nat} {minimum maximum : Int}
    (hwidth : ∀ n, minimum ≤ n → n ≤ maximum → Text.fitsSigned bits n)
    (a : Attribute) : (number bits minimum maximum).Ends a (illegal bits) := by
  obtain ⟨-, h⟩ | ⟨-, ⟨-, h⟩ | ⟨n, -, ⟨-, h⟩ | ⟨-, -, h⟩ | ⟨-, -, h⟩⟩⟩ := number_cases hwidth a
  · exact .inr ⟨_, h⟩
  · exact .inr ⟨_, h⟩
  · exact .inr ⟨_, h⟩
  · exact .inl ⟨_, _, h⟩
  · exact .inr ⟨_, h⟩

theorem ends_guid (generatable mayBeEmpty : Bool) (a : Attribute) :
    (guid generatable mayBeEmpty).Ends a "" := by
  obtain ⟨-, ⟨-, h⟩ | ⟨-, h⟩⟩ | ⟨-, ⟨-, h⟩ | ⟨-, -, ⟨g, -, h⟩ | ⟨-, h⟩⟩⟩ :=
    guid_cases generatable mayBeEmpty a
  · exact .inl ⟨_, _, h⟩
  · exact .inr ⟨_, h⟩
  · exact .inl ⟨_, _, h⟩
  · exact .inl ⟨_, _, h⟩
  · exact .inr ⟨_, h⟩

theorem ends_longName (wildcards relative : Bool) (a : Attribute) :
    (longName wildcards relative).Ends a "" := by
  obtain ⟨-, h⟩ | ⟨-, ⟨-, h⟩ | ⟨-, ⟨-, h⟩ | ⟨name, -, ⟨-, h⟩ | ⟨-, h⟩⟩⟩⟩ :=
    longName_cases wildcards relative a
  · exact .inr ⟨_, h⟩
  · exact .inl ⟨_, _, h⟩
  · exact .inr ⟨_, h⟩
  · exact .inl ⟨_, _, h⟩
  · exact .inr ⟨_, h⟩

theorem ends_registryRoot (machineOrUser : Bool) (a : Attribute) :
    (registryRoot machineOrUser).Ends a none := by
  obtain ⟨-, h⟩ | ⟨-, ⟨root, -, -, h⟩ | ⟨-, h⟩⟩ := registryRoot_cases machineOrUser a
  · exact .inr ⟨_, h⟩
  · exact .inl ⟨_, _, h⟩
  · exact .inr ⟨_, h⟩

theorem ends_version (a : Attribute) : version.Ends a none := by
  obtain ⟨-, h⟩ | ⟨-, ⟨-, h⟩ | ⟨-, ⟨-, h⟩ | ⟨-, h⟩⟩⟩ := version_cases a
  · exact .inr ⟨_, h⟩
  · exact .inl ⟨_, _, h⟩
  · exact .inl ⟨_, _, h⟩
  · exact .inr ⟨_, h⟩

theorem ends_choice (standIn : α) (choices : List (String × α)) (withDefault : Bool)
    (a : Attribute) : (choice standIn choices withDefault).Ends a standIn := by
  obtain ⟨-, h⟩ | ⟨-, ⟨value, -, h⟩ | ⟨-, h⟩⟩ := choice_cases standIn choices withDefault a
  · exact .inr ⟨_, h⟩
  · exact .inl ⟨_, _, h⟩
  · exact .inr ⟨_, h⟩

theorem ends_bundleVariable (rule : BundleVariable.Rule) (a : Attribute) :
    (bundleVariable rule).Ends a Identifier.placeholder.id := by
  obtain ⟨-, h⟩ | ⟨-, ⟨-, h⟩ | ⟨-, h | ⟨why, h⟩⟩⟩ := bundleVariable_cases rule a
  · exact .inr ⟨_, h⟩
  · exact .inr ⟨_, h⟩
  · exact .inl ⟨_, _, h⟩
  · exact .inr ⟨_, h⟩

theorem ends_bundleVariableIdentifier (a : Attribute) :
    bundleVariableIdentifier.Ends a Identifier.placeholder := by
  obtain ⟨i, odd, h⟩ | ⟨fault, h⟩ := ends_identifier a
  · exact .inl ⟨_, _, bundleVariableIdentifier_of_accepts h⟩
  · exact .inr ⟨_, bundleVariableIdentifier_of_refuses h⟩

/-! ## The ways of reading -/

/-- The ways in which attributes are read, with their options, by the type of the value. -/
inductive Accessor : Type → Type where
  | text (rule : BlankRule) : Accessor String
  | identifier : Accessor Identifier
  | identifierText : Accessor String
  | integer (minimum maximum : Int32) : Accessor Int
  | long (minimum maximum : Int64) : Accessor Int
  | guid (generatable mayBeEmpty : Bool) : Accessor String
  | longName (wildcards relative : Bool) : Accessor String
  | registryRoot (machineOrUser : Bool) : Accessor (Option Registry.Root)
  | version : Accessor (Option VersionText)
  | yesNo : Accessor YesNo
  | yesNoDefault : Accessor YesNoDefault
  | bundleVariable (rule : BundleVariable.Rule) : Accessor String
  | bundleVariableIdentifier : Accessor Identifier

namespace Accessor

def coercion : Accessor α → Coercion α
  | text rule => .text rule
  | identifier => .identifier
  | identifierText => .identifierText
  | integer minimum maximum => .number 32 minimum.toInt maximum.toInt
  | long minimum maximum => .number 64 minimum.toInt maximum.toInt
  | guid generatable mayBeEmpty => .guid generatable mayBeEmpty
  | longName wildcards relative => .longName wildcards relative
  | registryRoot machineOrUser => .registryRoot machineOrUser
  | version => .version
  | yesNo => .yesNo
  | yesNoDefault => .yesNoDefault
  | bundleVariable rule => .bundleVariable rule
  | bundleVariableIdentifier => .bundleVariableIdentifier

/-- What is promised to stand in for a value that could not be read. -/
def standIn : Accessor α → α
  | text _ | guid _ _ | longName _ _ => ""
  | identifier | bundleVariableIdentifier => ⟨.fragment, "!InvalidIdentifier"⟩
  | identifierText | bundleVariable _ => "!InvalidIdentifier"
  | integer _ _ => (Int32.minValue + 1).toInt
  | long _ _ => (Int64.minValue + 1).toInt
  | registryRoot _ => none
  | version => none
  | yesNo => .no
  | yesNoDefault => .default

/-- A number keeps to the width that it is read for. -/
def Fits : Accessor α → α → Prop
  | integer _ _, n => ∃ m : Int32, m.toInt = n
  | long _ _, n => ∃ m : Int64, m.toInt = n
  | _, _ => True

theorem fitsSigned_of_int32 {minimum maximum : Int32} (n : Int) (hmin : minimum.toInt ≤ n)
    (hmax : n ≤ maximum.toInt) : Text.fitsSigned 32 n := by
  have hlow := minimum.le_toInt
  have hhigh := maximum.toInt_lt
  simp only [Text.fitsSigned, Text.minSigned, Nat.shiftLeft_eq, Bool.and_eq_true, decide_eq_true_eq]
  omega

theorem fitsSigned_of_int64 {minimum maximum : Int64} (n : Int) (hmin : minimum.toInt ≤ n)
    (hmax : n ≤ maximum.toInt) : Text.fitsSigned 64 n := by
  have hlow := minimum.le_toInt
  have hhigh := maximum.toInt_lt
  simp only [Text.fitsSigned, Text.minSigned, Nat.shiftLeft_eq, Bool.and_eq_true, decide_eq_true_eq]
  omega

theorem ends (x : Accessor α) (a : Attribute) : x.coercion.Ends a x.standIn := by
  cases x with
  | text rule => exact ends_text rule a
  | identifier => exact ends_identifier a
  | identifierText => exact ends_identifierText a
  | integer minimum maximum => exact ends_number fitsSigned_of_int32 a
  | long minimum maximum => exact ends_number fitsSigned_of_int64 a
  | guid generatable mayBeEmpty => exact ends_guid generatable mayBeEmpty a
  | longName wildcards relative => exact ends_longName wildcards relative a
  | registryRoot machineOrUser => exact ends_registryRoot machineOrUser a
  | version => exact ends_version a
  | yesNo => exact ends_choice _ _ _ a
  | yesNoDefault => exact ends_choice _ _ _ a
  | bundleVariable rule => exact ends_bundleVariable rule a
  | bundleVariableIdentifier => exact ends_bundleVariableIdentifier a

theorem fits_of_valid (x : Accessor α) {loc : Location} {a : Attribute} {u : SourceUnit} {value : α}
    (h : (SourceUnit.readAttribute x.coercion loc a u).1 = .valid value) : x.Fits value := by
  cases x with
  | integer minimum maximum =>
    obtain ⟨-, hmin, hmax⟩ := number_valid fitsSigned_of_int32 h
    refine ⟨Int32.ofInt value, Int32.toInt_ofInt_of_le ?_ ?_⟩
    · exact Int.le_trans minimum.le_toInt hmin
    · exact Int.lt_of_le_of_lt hmax maximum.toInt_lt
  | long minimum maximum =>
    obtain ⟨-, hmin, hmax⟩ := number_valid fitsSigned_of_int64 h
    refine ⟨Int64.ofInt value, Int64.toInt_ofInt_of_le ?_ ?_⟩
    · exact Int.le_trans minimum.le_toInt hmin
    · exact Int.lt_of_le_of_lt hmax maximum.toInt_lt
  | _ => trivial

/-- Reading only appends reports. A value that was read fits, and comes with no error and with one
warning at most; otherwise the value is the one that was promised to stand in, and there is one
error, at the location that was given. -/
theorem readAttribute_contract (x : Accessor α) (loc : Location) (a : Attribute)
    (u : SourceUnit) :
    ∃ reports, (SourceUnit.readAttribute x.coercion loc a u).2 = u.withReports reports
      ∧ (SourceUnit.readAttribute x.coercion loc a u).2.diagnostics = u.diagnostics ++ reports
      ∧ (∀ value, (SourceUnit.readAttribute x.coercion loc a u).1 = .valid value →
          x.Fits value ∧ (∀ d ∈ reports, d.isWarning) ∧ reports.length ≤ 1)
      ∧ ∀ value, (SourceUnit.readAttribute x.coercion loc a u).1 = .placeholder value →
          value = x.standIn ∧ ∃ d, reports = [d] ∧ d.isError ∧ d.location? = some loc := by
  obtain ⟨value, odd, h⟩ | ⟨fault, h⟩ := x.ends a
  · have hfits : x.Fits value := x.fits_of_valid (congrArg Prod.fst (h.eq loc u))
    rw [h.eq]
    refine ⟨_, rfl, SourceUnit.diagnostics_withReports _ _, ?_, ?_⟩
    · rintro _ ⟨⟩
      refine ⟨hfits, fun d hd => ?_, ?_⟩
      · obtain ⟨o, -, rfl⟩ := List.mem_map.1 hd
        exact Problem.report_caution_isWarning loc a.path o
      · rw [List.length_map]
        cases odd <;> simp
    · rintro _ ⟨⟩
  · rw [h.eq]
    refine ⟨_, rfl, SourceUnit.diagnostics_withReports _ _, ?_, ?_⟩
    · rintro _ ⟨⟩
    · rintro _ ⟨⟩
      exact ⟨rfl, _, rfl, Problem.report_value_isError loc a.path fault,
        Problem.report_location? loc _⟩

end Accessor

end Coercion

end InstallerAnalysis
