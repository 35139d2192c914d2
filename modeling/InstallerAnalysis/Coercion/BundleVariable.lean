import InstallerAnalysis.Coercion.Values

/-!
# Bundle variables

The engine that runs a bundle defines variables of its own, and the names that start with `Wix` are
reserved for it. Where a bundle sets a variable, either kind of name may be refused.
-/

namespace InstallerAnalysis

namespace BundleVariable

/-- Which names of the engine an attribute accepts. -/
structure Rule where
  wellKnown : Bool := true
  reserved : Bool := true
deriving DecidableEq

/-- The variables that the engine defines. -/
def wellKnown : List String :=
  ["AdminToolsFolder", "AppDataFolder", "CommonAppDataFolder", "CommonFiles64Folder",
   "CommonFiles6432Folder", "CommonFilesFolder", "CompatibilityMode", "ComputerName", "Date",
   "DesktopFolder", "FavoritesFolder", "FontsFolder", "InstallerName", "InstallerVersion",
   "LocalAppDataFolder", "LogonUser", "MyPicturesFolder", "NativeMachine", "NTProductType",
   "NTSuiteBackOffice", "NTSuiteDataCenter", "NTSuiteEnterprise", "NTSuitePersonal",
   "NTSuiteSmallBusiness", "NTSuiteSmallBusinessRestricted", "NTSuiteWebServer", "PersonalFolder",
   "Privileged", "ProcessorArchitecture", "ProgramFiles64Folder", "ProgramFiles6432Folder",
   "ProgramFilesFolder", "ProgramMenuFolder", "RebootPending", "SendToFolder", "ServicePackLevel",
   "StartMenuFolder", "StartupFolder", "System64Folder", "SystemFolder", "SystemLanguageID",
   "TempFolder", "TemplateFolder", "TerminalServer", "UserLanguageID", "UserUILanguageID",
   "VersionMsi", "VersionNT", "VersionNT64", "WindowsBuildNumber", "WindowsFolder", "WindowsVolume",
   "WixBundleAction", "WixBundleActiveParent", "WixBundleCommandLineAction", "WixBundleElevated",
   "WixBundleExecutePackageAction", "WixBundleExecutePackageCacheFolder",
   "WixBundleForcedRestartPackage", "WixBundleInstalled", "WixBundleLastUsedSource",
   "WixBundleLayoutDirectory", "WixBundleLog", "WixBundleManufacturer", "WixBundleName",
   "WixBundleOriginalSource", "WixBundleOriginalSourceFolder", "WixBundleProviderKey",
   "WixBundleSourceProcessFolder", "WixBundleSourceProcessPath", "WixBundleTag", "WixBundleUILevel",
   "WixBundleVersion"]

def reservedStart : String := "Wix"

end BundleVariable

namespace Coercion

open SourceUnit (report readAttribute)

/-- Whether a rule admits a name of the identifier grammar. One that it refuses is reported. -/
def admitVariable (rule : BundleVariable.Rule) (name : String) (loc : Location) (a : Attribute) :
    Analysis Bool := do
  if !rule.wellKnown && BundleVariable.wellKnown.contains name then
    report (.value a.path (.illegalBundleVariable name .wellKnown)) loc
    return false
  else if !rule.reserved && BundleVariable.reservedStart.toList.isPrefixOf name.toList then
    report (.value a.path (.illegalBundleVariable name .reserved)) loc
    return false
  else
    return true

def bundleVariable (rule : BundleVariable.Rule) : Coercion String :=
  ofText Identifier.placeholder.id fun loc a s => do
    if Identifier.isLegal s then
      if ← admitVariable rule s loc a then
        return .valid s
      else
        return .placeholder Identifier.placeholder.id
    else
      report (.value a.path (.illegalBundleVariable s .grammar)) loc
      return .placeholder Identifier.placeholder.id

/-- The name of a variable as an identifier, with or without an access. -/
def bundleVariableIdentifier : Coercion Identifier := fun loc a => do
  match ← readAttribute identifier loc a with
  | .valid i =>
    if ← admitVariable {} i.id loc a then
      return .valid i
    else
      return .placeholder Identifier.placeholder
  | .placeholder i => return .placeholder i

end Coercion

end InstallerAnalysis
