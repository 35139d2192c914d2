import InstallerAnalysis.Proofs.GuidAttributes
import InstallerAnalysis.Proofs.IdentifierTexts
import InstallerAnalysis.Proofs.NormalNames

/-!
# Placeholders are not values

A coercion is `Apart` from its placeholder if no text is read as that value; the value alone then
says whether the text was refused (`Apart.value_eq_iff`). Each language of values leaves its
placeholder out for a reason of its own: the placeholder of identifiers is no name, that of numbers
is reserved, and paths that come to nothing and blank GUIDs are refused. Where a value is given for
a blank text, or where the placeholder is one of the choices, the two cannot be told apart
(`readAttribute_value_eq_standIn_iff`).
-/

namespace InstallerAnalysis

namespace Coercion

/-- No attribute is read as the value that stands in for those that are refused. -/
def Apart {α : Type} (c : Coercion α) (standIn : α) : Prop :=
  ∀ loc a u v, (SourceUnit.readAttribute c loc a u).1 = .valid v → v ≠ standIn

theorem Apart.value_eq_iff {α : Type} {c : Coercion α} {standIn : α} {a : Attribute}
    (h : c.Apart standIn) (hends : c.Ends a standIn) (loc : Location) (u : SourceUnit) :
    (SourceUnit.readAttribute c loc a u).1.value = standIn
      ↔ (SourceUnit.readAttribute c loc a u).1.isValid = false := by
  obtain ⟨v, odd, haccepts⟩ | ⟨fault, hrefuses⟩ := hends
  · have hne : v ≠ standIn := h loc a u v (by rw [haccepts.eq])
    rw [haccepts.eq]
    exact iff_of_false hne (by simp [Outcome.isValid])
  · rw [hrefuses.eq]
    exact iff_of_true rfl rfl

/-! ## Identifiers -/

theorem not_isName_placeholder : ¬ Identifier.IsName Identifier.placeholder.id.toList := by
  rw [← Identifier.isLegalText_iff]
  decide

theorem isName_of_accepts {a : Attribute} {i : Identifier} {odd : Option ValueCaution}
    (h : identifier.Accepts a i odd) (loc : Location) (u : SourceUnit) :
    Identifier.IsName i.id.toList := by
  have hvalid : (SourceUnit.readAttribute identifier loc a u).1 = .valid i := by rw [h.eq]
  exact (identifier_valid_iff.1 hvalid).isName

theorem apart_identifier : identifier.Apart Identifier.placeholder := by
  rintro loc a u i h rfl
  exact not_isName_placeholder (identifier_valid_iff.1 h).isName

theorem apart_identifierText : identifierText.Apart Identifier.placeholder.id := by
  rintro loc a u _ hvalid rfl
  obtain ⟨i, odd, h⟩ | ⟨fault, h⟩ := ends_identifier a
  · have hname := isName_of_accepts h loc u
    rw [(identifierText_of_accepts h).eq, Outcome.valid.injEq] at hvalid
    rw [hvalid] at hname
    exact not_isName_placeholder hname
  · rw [(identifierText_of_refuses h).eq] at hvalid
    cases hvalid

theorem apart_bundleVariable (rule : BundleVariable.Rule) :
    (bundleVariable rule).Apart Identifier.placeholder.id := by
  rintro loc a u _ hvalid rfl
  obtain ⟨-, h⟩ | ⟨-, ⟨-, h⟩ | ⟨hlegal, h | ⟨why, h⟩⟩⟩ := bundleVariable_cases rule a
  all_goals rw [h.eq] at hvalid
  · cases hvalid
  · cases hvalid
  · rw [Outcome.valid.injEq] at hvalid
    rw [hvalid] at hlegal
    exact not_isName_placeholder (Identifier.isLegalText_iff.1 hlegal)
  · cases hvalid

theorem apart_bundleVariableIdentifier :
    bundleVariableIdentifier.Apart Identifier.placeholder := by
  rintro loc a u _ hvalid rfl
  obtain ⟨i, odd, h⟩ | ⟨fault, h⟩ := ends_identifier a
  · have hname := isName_of_accepts h loc u
    rw [(bundleVariableIdentifier_of_accepts h).eq, Outcome.valid.injEq] at hvalid
    rw [hvalid] at hname
    exact not_isName_placeholder hname
  · rw [(bundleVariableIdentifier_of_refuses h).eq] at hvalid
    cases hvalid

/-! ## Numbers -/

theorem apart_number {bits : Nat} {minimum maximum : Int}
    (hwidth : ∀ n, minimum ≤ n → n ≤ maximum → Text.fitsSigned bits n) :
    (number bits minimum maximum).Apart (illegal bits) := by
  rintro loc a u _ h rfl
  exact (number_valid hwidth h).1 (.inr rfl)

/-! ## Texts -/

theorem apart_text {rule : BlankRule} (hrule : rule ≠ .acceptAll) : (text rule).Apart "" := by
  rintro loc a u _ hvalid rfl
  obtain ⟨-, h⟩ | ⟨haccepts, h⟩ := text_cases rule a
  · rw [h.eq] at hvalid
    cases hvalid
  · rw [h.eq, Outcome.valid.injEq] at hvalid
    rw [hvalid] at haccepts
    cases rule with
    | refuseBlank => cases haccepts
    | refuseEmpty => cases haccepts
    | acceptAll => exact hrule rfl

/-- Blank texts apart, what a GUID is read as is not empty. -/
theorem apart_guid (generatable : Bool) : (guid generatable false).Apart "" := by
  intro loc a u v h
  cases normalGuid_of_valid h with
  | empty hallowed => cases hallowed
  | star => decide
  | deferred hdeferred =>
    intro heq
    rw [heq] at hdeferred
    cases hdeferred
  | text g =>
    intro heq
    have hlen := Guid.length_text g
    rw [heq] at hlen
    cases hlen

/-- A path that comes to nothing is refused. -/
theorem apart_longName (wildcards relative : Bool) : (longName wildcards relative).Apart "" := by
  rintro loc a u _ h rfl
  obtain ⟨hblank, ⟨heq, -⟩ | ⟨-, hnormal, -⟩⟩ := longName_valid h
  · rw [← heq] at hblank
    cases hblank
  · exact hnormal.ne_empty rfl

/-! ## Choices -/

theorem apart_registryRoot (machineOrUser : Bool) : (registryRoot machineOrUser).Apart none := by
  rintro loc a u _ hvalid rfl
  obtain ⟨-, h⟩ | ⟨-, ⟨root, -, -, h⟩ | ⟨-, h⟩⟩ := registryRoot_cases machineOrUser a
  all_goals
    rw [h.eq] at hvalid
    cases hvalid

theorem apart_version : version.Apart none := by
  rintro loc a u _ hvalid rfl
  obtain ⟨-, h⟩ | ⟨-, ⟨-, h⟩ | ⟨-, ⟨-, h⟩ | ⟨-, h⟩⟩⟩ := version_cases a
  all_goals
    rw [h.eq] at hvalid
    cases hvalid

/-! ## The ways of reading -/

namespace Accessor

variable {α : Type}

/-- The ways of reading whose values are never what stands in for a text that was refused. -/
def TellsApart : Accessor α → Prop
  | identifier | identifierText | bundleVariable _ | bundleVariableIdentifier | integer _ _
  | long _ _ | longName _ _ | registryRoot _ | version => True
  | guid _ mayBeEmpty => mayBeEmpty = false
  | text rule => rule ≠ .acceptAll
  | yesNo | yesNoDefault => False

theorem apart_of_tellsApart {x : Accessor α} (h : x.TellsApart) :
    x.coercion.Apart x.standIn := by
  cases x with
  | text rule => exact apart_text h
  | identifier => exact apart_identifier
  | identifierText => exact apart_identifierText
  | integer minimum maximum => exact apart_number fitsSigned_of_int32
  | long minimum maximum => exact apart_number fitsSigned_of_int64
  | guid generatable mayBeEmpty =>
    obtain rfl : mayBeEmpty = false := h
    exact apart_guid generatable
  | longName wildcards relative => exact apart_longName wildcards relative
  | registryRoot machineOrUser => exact apart_registryRoot machineOrUser
  | version => exact apart_version
  | yesNo => exact h.elim
  | yesNoDefault => exact h.elim
  | bundleVariable rule => exact apart_bundleVariable rule
  | bundleVariableIdentifier => exact apart_bundleVariableIdentifier

/-- The other ways of reading have a text for what stands in. -/
theorem exists_text_of_not_tellsApart {x : Accessor α} (h : ¬ x.TellsApart) :
    ∃ a, ∀ loc u, (SourceUnit.readAttribute x.coercion loc a u).1 = .valid x.standIn := by
  cases x with
  | text rule =>
    obtain rfl : rule = .acceptAll := not_not.1 h
    exact ⟨⟨⟨none, "Component"⟩, ⟨none, "Id"⟩, ""⟩, fun _ _ => rfl⟩
  | guid generatable mayBeEmpty =>
    obtain rfl : mayBeEmpty = true := Bool.not_eq_false _ ▸ h
    exact ⟨⟨⟨none, "Component"⟩, ⟨none, "Guid"⟩, ""⟩, fun _ _ => rfl⟩
  | yesNo => exact ⟨⟨⟨none, "Component"⟩, ⟨none, "Shared"⟩, "no"⟩, fun _ _ => rfl⟩
  | yesNoDefault => exact ⟨⟨⟨none, "Component"⟩, ⟨none, "Bitness"⟩, "default"⟩, fun _ _ => rfl⟩
  | _ => exact absurd trivial h

/-- A way of reading tells apart what authors wrote from what stands in for it exactly if no value
that was read is the one that stands in, whatever the attribute and the options; the value alone
then says whether the text was refused. -/
theorem readAttribute_value_eq_standIn_iff (x : Accessor α) : x.TellsApart
    ↔ ∀ loc a u, (∀ v, (SourceUnit.readAttribute x.coercion loc a u).1 = .valid v → v ≠ x.standIn)
      ∧ ((SourceUnit.readAttribute x.coercion loc a u).1.value = x.standIn
        ↔ (SourceUnit.readAttribute x.coercion loc a u).1.isValid = false) := by
  constructor
  · intro h loc a u
    have hapart := apart_of_tellsApart h
    exact ⟨hapart loc a u, hapart.value_eq_iff (x.ends a) loc u⟩
  · intro h
    by_contra hnot
    obtain ⟨a, ha⟩ := exists_text_of_not_tellsApart hnot
    have u : SourceUnit := { catalog := Catalog.empty, content := { id := "Main" } }
    exact (h ⟨"setup.xml", none⟩ a u).1 _ (ha _ u) rfl

end Accessor

end Coercion

end InstallerAnalysis
