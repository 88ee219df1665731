import Installer.Component.Graph
import Installer.Manifest.Expansion

/-!
# From a manifest and settings to a package

The settings are resolved, the manifest's texts are expanded, the directories are put into their
tree, the components and features into their graph, and the custom actions into their sequence. The
first rule that the manifest breaks ends it.
-/

set_option autoImplicit false

namespace Installer.Manifest

/-- The names that guards may refer to: the installer's variables, directories and properties, and
the features and components. -/
def guardScope (t : DirectoryTree) (g : ComponentGraph) (properties : Dictionary) :
    Guard.Scope where
  variableNames := Guard.builtins ++ t.ids ++ properties.names
  features := g.features.map (·.id)
  components := g.components.map (·.id)

/-- The package of a manifest whose texts are expanded already. -/
def settle (i : Injection) (m : Manifest) : Except Violation Package := do
  let upgradeCode ← Guid.parse "upgrade_code" m.product.upgradeCode
  let code ← productCode m.product.productCode upgradeCode i.version i.platform
  let directories ← DirectoryTree.make i.platform.programFiles m.directories
  let context : Component.Context := {
    product := ⟨m.product.scope, m.product.manufacturer, m.product.name, m.fileKeys⟩
    win64 := i.platform.isWin64
    directories, upgradeCode }
  let graph ← ComponentGraph.make context m
  let schedule ← Schedule.make m.actions m.rules m.fileKeys
    (guardScope directories graph m.product.properties)
  return {
    formatVersion := Package.currentFormat
    product := {
      name := m.product.name
      manufacturer := m.product.manufacturer
      upgradeCode := upgradeCode.text
      productCode := code.text
      version := i.version.text
      platform := i.platform
      win64 := i.platform.isWin64
      programFiles := i.platform.programFiles.id
      language := m.product.language
      codepage := m.product.codepage
      scope := m.product.scope
      installLevel := m.product.installLevel
      upgrade := m.product.upgrade
      properties := m.product.properties
      assets := i.packageAssets }
    recorded := i.recorded
    directories := directories.listing
    components := graph.components
    features := graph.features
    defaultFeatures := (Feature.defaults graph.features).map (·.id)
    defaultComponents := Feature.defaultComponents graph.features
    actions := schedule.actions
    steps := schedule.steps }

/-- The package of a manifest and the settings of a build, or the first rule that is broken. -/
def compile (m : Manifest) (s : Settings) : Except Violation Package := do
  let i ← Injection.ofSettings s m.product.version
  let expanded ← m.expandWith i.expand i.version.text
  expanded.settle i

end Installer.Manifest
