import Installer.Package.Basic
import Installer.Text.Letters
import Installer.Violation

/-!
# The rules between a package and an earlier one

The upgrade code of a product stays, and a stability key that was there before still stands for the
same key path. The earlier package is looked at by keys alone, and of components with one key the last
is the one that counts. The earlier package may come from a file: it need not be one that was
compiled.
-/

set_option autoImplicit false

namespace Installer.Package

/-- The component of an earlier package that has a stability key. -/
def componentWithKey? (p : Package) (guid : String) : Option Component :=
  (p.components.filter (·.guid = guid)).getLast?

/-- Whether a component's stability key stood for another key path in an earlier package. -/
def isStale (baseline : Package) (c : Component) : Bool :=
  (baseline.componentWithKey? c.guid).any fun old => old.keyPathIdentity ≠ c.keyPathIdentity

/-- Holds a package against an earlier one. -/
def checkBaseline (p baseline : Package) : Except Violation Unit :=
  if !Text.sameIgnoringAsciiCase p.product.upgradeCode baseline.product.upgradeCode then
    .error (.upgradeCodeChanged baseline.product.upgradeCode p.product.upgradeCode)
  else
    match p.components.find? (isStale baseline) with
    | some c => .error (.staleStabilityKey c.id c.guid)
    | none => .ok ()

end Installer.Package
