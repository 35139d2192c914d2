/-!
# Kinds of parents and children

Rows name them by number.
-/

namespace InstallerAnalysis.Grouping

/-- What groups something. -/
inductive ParentType where
  | unknown
  | feature
  | componentGroup
  | featureGroup
  | module
  | product
  | patchFamilyGroup
  | patch
  | container
  | layout
  | packageGroup
deriving DecidableEq

namespace ParentType

def all : List ParentType :=
  [.unknown, .feature, .componentGroup, .featureGroup, .module, .product, .patchFamilyGroup, .patch,
   .container, .layout, .packageGroup]

def code : ParentType → Int
  | .unknown => 0
  | .feature => 1
  | .componentGroup => 2
  | .featureGroup => 3
  | .module => 4
  | .product => 5
  | .patchFamilyGroup => 6
  | .patch => 7
  | .container => 8
  | .layout => 9
  | .packageGroup => 10

def text : ParentType → String
  | .unknown => "Unknown"
  | .feature => "Feature"
  | .componentGroup => "ComponentGroup"
  | .featureGroup => "FeatureGroup"
  | .module => "Module"
  | .product => "Product"
  | .patchFamilyGroup => "PatchFamilyGroup"
  | .patch => "Patch"
  | .container => "Container"
  | .layout => "Layout"
  | .packageGroup => "PackageGroup"

def ofCode? (code : Int) : Option ParentType :=
  all.find? (·.code = code)

def ofText? (s : String) : Option ParentType :=
  all.find? (·.text = s)

end ParentType

/-- What is grouped. -/
inductive ChildType where
  | unknown
  | feature
  | component
  | componentGroup
  | featureGroup
  | module
  | patchFamily
  | patchFamilyGroup
  | package
  | packageGroup
  | payload
  | payloadGroup
deriving DecidableEq

namespace ChildType

def all : List ChildType :=
  [.unknown, .feature, .component, .componentGroup, .featureGroup, .module, .patchFamily,
   .patchFamilyGroup, .package, .packageGroup, .payload, .payloadGroup]

def code : ChildType → Int
  | .unknown => 0
  | .feature => 1
  | .component => 2
  | .componentGroup => 3
  | .featureGroup => 4
  | .module => 5
  | .patchFamily => 6
  | .patchFamilyGroup => 7
  | .package => 8
  | .packageGroup => 9
  | .payload => 10
  | .payloadGroup => 11

def text : ChildType → String
  | .unknown => "Unknown"
  | .feature => "Feature"
  | .component => "Component"
  | .componentGroup => "ComponentGroup"
  | .featureGroup => "FeatureGroup"
  | .module => "Module"
  | .patchFamily => "PatchFamily"
  | .patchFamilyGroup => "PatchFamilyGroup"
  | .package => "Package"
  | .packageGroup => "PackageGroup"
  | .payload => "Payload"
  | .payloadGroup => "PayloadGroup"

def ofCode? (code : Int) : Option ChildType :=
  all.find? (·.code = code)

def ofText? (s : String) : Option ChildType :=
  all.find? (·.text = s)

end ChildType

end InstallerAnalysis.Grouping
