import InstallerAnalysis.Action.Schedule
import InstallerAnalysis.Action.Sequence
import InstallerAnalysis.Action.Standard
import InstallerAnalysis.Coercion.Basic
import InstallerAnalysis.Coercion.BundleVariable
import InstallerAnalysis.Coercion.Fault
import InstallerAnalysis.Coercion.Values
import InstallerAnalysis.Compilation
import InstallerAnalysis.Config
import InstallerAnalysis.Datum
import InstallerAnalysis.Diagnostic
import InstallerAnalysis.Digest.Blocks
import InstallerAnalysis.Digest.Md5
import InstallerAnalysis.Digest.Sha256
import InstallerAnalysis.Digest.SixBit
import InstallerAnalysis.Directory.Basic
import InstallerAnalysis.Directory.Inline
import InstallerAnalysis.Extension.Basic
import InstallerAnalysis.Extension.Dispatch
import InstallerAnalysis.Extension.Rules
import InstallerAnalysis.Filename.Basic
import InstallerAnalysis.Filename.Path
import InstallerAnalysis.Filename.ShortName
import InstallerAnalysis.Formatted
import InstallerAnalysis.Grouping.Basic
import InstallerAnalysis.Grouping.Membership
import InstallerAnalysis.Grouping.View
import InstallerAnalysis.Guid.Basic
import InstallerAnalysis.Guid.NameBased
import InstallerAnalysis.Identifier.Basic
import InstallerAnalysis.Identifier.Synthesis
import InstallerAnalysis.Location
import InstallerAnalysis.Markup.Basic
import InstallerAnalysis.Markup.InnerText
import InstallerAnalysis.Platform
import InstallerAnalysis.Problem
import InstallerAnalysis.Proofs.ActionSchedules
import InstallerAnalysis.Proofs.Attempts
import InstallerAnalysis.Proofs.CallEffects
import InstallerAnalysis.Proofs.CoercionReports
import InstallerAnalysis.Proofs.CompilationOutcome
import InstallerAnalysis.Proofs.CycleReports
import InstallerAnalysis.Proofs.FoldedText
import InstallerAnalysis.Proofs.GuidAttributes
import InstallerAnalysis.Proofs.GuidText
import InstallerAnalysis.Proofs.HookCalls
import InstallerAnalysis.Proofs.IdentifierTexts
import InstallerAnalysis.Proofs.InlineCache
import InstallerAnalysis.Proofs.InlineDirectories
import InstallerAnalysis.Proofs.InlineDuplicates
import InstallerAnalysis.Proofs.InlinePath
import InstallerAnalysis.Proofs.InlineReuse
import InstallerAnalysis.Proofs.LetterCase
import InstallerAnalysis.Proofs.MembershipView
import InstallerAnalysis.Proofs.NameBytes
import InstallerAnalysis.Proofs.NestedNames
import InstallerAnalysis.Proofs.NormalNames
import InstallerAnalysis.Proofs.Numerals
import InstallerAnalysis.Proofs.Occurrences
import InstallerAnalysis.Proofs.Operations
import InstallerAnalysis.Proofs.Placeholders
import InstallerAnalysis.Proofs.PrimaryConflicts
import InstallerAnalysis.Proofs.PropertyReferences
import InstallerAnalysis.Proofs.RegistryValues
import InstallerAnalysis.Proofs.RejectedPaths
import InstallerAnalysis.Proofs.RelativePaths
import InstallerAnalysis.Proofs.RequiredTables
import InstallerAnalysis.Proofs.SearchCycles
import InstallerAnalysis.Proofs.SearchOrder
import InstallerAnalysis.Proofs.SearchPriority
import InstallerAnalysis.Proofs.SearchRelations
import InstallerAnalysis.Proofs.SectionGrowth
import InstallerAnalysis.Proofs.SectionKeys
import InstallerAnalysis.Proofs.SectionLookup
import InstallerAnalysis.Proofs.ShortNames
import InstallerAnalysis.Proofs.SixBitText
import InstallerAnalysis.Proofs.SixBitWords
import InstallerAnalysis.Proofs.SynthesizedIdentifier
import InstallerAnalysis.Proofs.TableRegistration
import InstallerAnalysis.Proofs.Trimming
import InstallerAnalysis.Proofs.TypedCells
import InstallerAnalysis.Proofs.TypedRuns
import InstallerAnalysis.Proofs.VariableReferences
import InstallerAnalysis.Proofs.VersionTexts
import InstallerAnalysis.Registry.Basic
import InstallerAnalysis.Registry.Entry
import InstallerAnalysis.Search.Basic
import InstallerAnalysis.Search.Cycle
import InstallerAnalysis.Search.Order
import InstallerAnalysis.Search.View
import InstallerAnalysis.Section
import InstallerAnalysis.SourceUnit.Basic
import InstallerAnalysis.SourceUnit.InnerText
import InstallerAnalysis.SourceUnit.References
import InstallerAnalysis.SourceUnit.Rows
import InstallerAnalysis.Symbol
import InstallerAnalysis.Table.Basic
import InstallerAnalysis.Table.Catalog
import InstallerAnalysis.Table.Schema
import InstallerAnalysis.Text.Blank
import InstallerAnalysis.Text.CaseData
import InstallerAnalysis.Text.Encoding
import InstallerAnalysis.Text.Lowercase
import InstallerAnalysis.Text.Numeral
import InstallerAnalysis.Toml.Document
import InstallerAnalysis.Toml.Lexeme
import InstallerAnalysis.Toml.Reader
import InstallerAnalysis.Toml.Scalar
import InstallerAnalysis.Toml.Value
import InstallerAnalysis.Variable
import InstallerAnalysis.Version
