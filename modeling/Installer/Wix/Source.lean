import Installer.Wix.Nesting

/-!
# The WiX source of a package

What is handed to the tool that builds the installer: one element with all parts of the package in a
fixed order, and its text (`source?`). Nothing is checked or decided here. Actions are placed by the
step that comes before them, whatever its kind, and only an action at the very front by its number.

A package that was written by hand may have directories or features that lie in themselves. Where the
walk meets one it never ends, so such a package has no source.
-/

set_option autoImplicit false

namespace Installer.Wix
open Xml

/-- The XML namespace of WiX sources. -/
def xmlNamespace : String := "http://schemas.microsoft.com/wix/2006/wi"

def scopeWord : Scope → String
  | .perMachine => "perMachine"
  | .perUser => "perUser"

def returnWord : ReturnPolicy → String
  | .check => "check"
  | .ignore => "ignore"
  | .asyncWait => "asyncWait"
  | .asyncNoWait => "asyncNoWait"

def property (id value : String) : Element := .leaf "Property" [("Id", id), ("Value", value)]

def icon (id source : String) : Element := .leaf "Icon" [("Id", id), ("SourceFile", source)]

/-- What the source says of the product before its parts. -/
def heading (p : Package.Product) : List Element := [
  .leaf "Package" [("InstallerVersion", "500"), ("Compressed", "yes"),
    ("InstallScope", scopeWord p.scope), ("Platform", Keyword.spelling p.platform)],
  .leaf "MajorUpgrade" [("AllowDowngrades", yesNo p.upgrade.allowDowngrades),
    ("AllowSameVersionUpgrades", yesNo p.upgrade.allowSameVersion),
    ("DowngradeErrorMessage", p.upgrade.downgradeMessage)],
  .leaf "MediaTemplate" [("EmbedCab", "yes")]]

/-- The properties, of which the install level is the first. -/
def properties (p : Package.Product) : List Element :=
  property "INSTALLLEVEL" (Text.decimal p.installLevel.toNat) ::
    p.properties.entries.map fun (id, value) => property id value

/-- The icon of the product. -/
def productIcon (assets : Dictionary) : List Element :=
  (assets.get? "icon").toList.flatMap fun source =>
    [icon "ProductIcon" source, property "ARPPRODUCTICON" "ProductIcon"]

/-- All items of a package. -/
def itemsOf (components : List Package.Component) : List Item := components.flatMap (·.items)

/-- The sources of files by their ids. -/
def fileSources (items : List Item) : Dictionary :=
  .ofList <| items.filterMap fun i => i.file?.map fun f => (f.id, f.source)

/-- The id of the file that holds a shortcut's icon. -/
def shortcutIcon? : Item → Option String
  | .shortcut s => s.icon
  | .file _ | .registry _ | .environment _ | .removeFolder _ => none

/-- The sources of the icons of shortcuts by the ids of their files. -/
def iconSources (items : List Item) : Dictionary :=
  .ofList <| (items.filterMap shortcutIcon?).filterMap fun key =>
    ((fileSources items).get? key).map fun source => (key, source)

def shortcutIcons (items : List Item) : List Element :=
  (iconSources items).entries.map fun (key, source) => icon (iconId key) source

/-- The assets that the installer's interface shows, with the variables they are put into. -/
def interfaceAssets : List (String × String) :=
  [("license", "WixUILicenseRtf"), ("banner", "WixUIBannerBmp"), ("dialog", "WixUIDialogBmp")]

def interfaceVariables (assets : Dictionary) : List Element :=
  interfaceAssets.flatMap fun (name, target) =>
    (assets.get? name).toList.map fun value =>
      Element.leaf "WixVariable" [("Id", target), ("Value", value)]

def customAction (a : Schedule.Action) : Element :=
  .leaf "CustomAction" [("Id", a.id), ("FileKey", a.fileKey), ("ExeCommand", a.arguments),
    ("Execute", Keyword.spelling a.execute), ("Impersonate", yesNo a.impersonate),
    ("Return", returnWord a.returnPolicy)]

/-- The place of a step: after the one before it, or the number of a step at the front. -/
def place (previous : Option String) (s : Step) : Attribute :=
  match previous with
  | some name => ("After", name)
  | none => ("Sequence", Text.decimal s.number.toNat)

def custom (previous : Option String) (s : Step) : Element :=
  let attributes := [("Action", s.name), place previous s]
  match s.condition with
  | some condition => .text "Custom" attributes condition
  | none => .leaf "Custom" attributes

/-- The actions among steps that follow the step `previous`. -/
def customsAfter (previous : Option String) : List Step → List Element
  | [] => []
  | s :: rest =>
    let more := customsAfter (some s.name) rest
    match s.kind with
    | .action => custom previous s :: more
    | .phase => more

/-- What holds of the element of any step after any other holds of all of them. -/
theorem forall_mem_customsAfter {P : Element → Prop} (h : ∀ previous s, P (custom previous s))
    (previous : Option String) (steps : List Step) : ∀ e ∈ customsAfter previous steps, P e := by
  induction steps generalizing previous with
  | nil => exact fun e he => absurd he List.not_mem_nil
  | cons s rest ih =>
    rw [customsAfter]
    cases s.kind with
    | action => exact List.forall_mem_cons.mpr ⟨h previous s, ih (some s.name)⟩
    | phase => exact ih (some s.name)

/-- The sequence of the actions; there is none without actions. -/
def sequence (p : Package) : List Element :=
  if p.actions.isEmpty then []
  else [.node "InstallExecuteSequence" [] (customsAfter none p.steps)]

def productAttributes (p : Package.Product) : List Attribute :=
  [("Id", p.productCode), ("Name", p.name), ("Language", Text.decimal p.language.toNat),
    ("Codepage", Text.decimal p.codepage.toNat), ("Version", p.version),
    ("Manufacturer", p.manufacturer), ("UpgradeCode", p.upgradeCode)]

/-- What stands in the product element, around the elements of directories and features. -/
def contents (p : Package) (directories features : List Element) : List Element :=
  heading p.product ++ properties p.product ++ productIcon p.product.assets ++
    shortcutIcons (itemsOf p.components) ++ interfaceVariables p.product.assets ++
    targetDirectory directories :: p.components.map component ++ features ++
    p.actions.map customAction ++ sequence p

/-- The root element, around the elements of directories and features. -/
def root (p : Package) (directories features : List Element) : Element :=
  .node "Wix" [("xmlns", xmlNamespace)]
    [.node "Product" (productAttributes p.product) (contents p directories features)]

/-- The root element of a package's source, if the walk over the package comes to its end. -/
def root? (p : Package) : Option Element := do
  let directories ← directories? p.directories
  let features ← features? p.features
  return root p directories features

/-- The text of a package's source; there is none where the walk does not end. -/
def source? (p : Package) : Option String := (root? p).map (·.document)

end Installer.Wix
