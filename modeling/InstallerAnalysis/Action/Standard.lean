/-!
# Standard actions

The actions that the installer engine itself provides.
-/

namespace InstallerAnalysis.Action

def standard : List String :=
  ["AllocateRegistrySpace", "AppSearch", "BindImage", "CCPSearch", "CostFinalize", "CostInitialize",
   "CreateFolders", "CreateShortcuts", "DeleteServices", "DisableRollback", "DuplicateFiles",
   "ExecuteAction", "FileCost", "FindRelatedProducts", "ForceReboot", "InstallAdminPackage",
   "InstallExecute", "InstallExecuteAgain", "InstallFiles", "InstallFinalize", "InstallInitialize",
   "InstallODBC", "InstallServices", "InstallSFPCatalogFile", "InstallValidate",
   "IsolateComponents", "LaunchConditions", "MigrateFeatureStates", "MoveFiles",
   "MsiConfigureServices", "MsiPublishAssemblies", "MsiUnpublishAssemblies", "PatchFiles",
   "ProcessComponents", "PublishComponents", "PublishFeatures", "PublishProduct",
   "RegisterClassInfo", "RegisterComPlus", "RegisterExtensionInfo", "RegisterFonts",
   "RegisterMIMEInfo", "RegisterProduct", "RegisterProgIdInfo", "RegisterTypeLibraries",
   "RegisterUser", "RemoveDuplicateFiles", "RemoveEnvironmentStrings", "RemoveExistingProducts",
   "RemoveFiles", "RemoveFolders", "RemoveIniValues", "RemoveODBC", "RemoveRegistryValues",
   "RemoveShortcuts", "ResolveSource", "RMCCPSearch", "ScheduleReboot", "SelfRegModules",
   "SelfUnregModules", "SetODBCFolders", "StartServices", "StopServices", "UnpublishComponents",
   "UnpublishFeatures", "UnregisterClassInfo", "UnregisterComPlus", "UnregisterExtensionInfo",
   "UnregisterFonts", "UnregisterMIMEInfo", "UnregisterProgIdInfo", "UnregisterTypeLibraries",
   "ValidateProductID", "WriteEnvironmentStrings", "WriteIniValues", "WriteRegistryValues"]

def isStandard (name : String) : Bool :=
  standard.contains name

end InstallerAnalysis.Action
