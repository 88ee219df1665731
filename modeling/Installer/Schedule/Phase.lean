import Installer.Keyword

/-!
# The phases of an installation

The phases come in a fixed order, and each has the sequence number that the installer gives it. Those
between `InstallInitialize` and `InstallFinalize` make up the script, in which deferred actions run.
-/

set_option autoImplicit false

namespace Installer

/-- A phase of the installation. -/
inductive Phase
  | costInitialize
  | costFinalize
  | installValidate
  | installInitialize
  | processComponents
  | unpublishFeatures
  | removeRegistryValues
  | removeShortcuts
  | removeFiles
  | installFiles
  | createShortcuts
  | writeRegistryValues
  | writeEnvironmentStrings
  | registerProduct
  | publishFeatures
  | publishProduct
  | installFinalize
  deriving DecidableEq, Repr

instance : Keyword Phase where
  all := [.costInitialize, .costFinalize, .installValidate, .installInitialize, .processComponents,
    .unpublishFeatures, .removeRegistryValues, .removeShortcuts, .removeFiles, .installFiles,
    .createShortcuts, .writeRegistryValues, .writeEnvironmentStrings, .registerProduct,
    .publishFeatures, .publishProduct, .installFinalize]
  spelling
    | .costInitialize => "CostInitialize"
    | .costFinalize => "CostFinalize"
    | .installValidate => "InstallValidate"
    | .installInitialize => "InstallInitialize"
    | .processComponents => "ProcessComponents"
    | .unpublishFeatures => "UnpublishFeatures"
    | .removeRegistryValues => "RemoveRegistryValues"
    | .removeShortcuts => "RemoveShortcuts"
    | .removeFiles => "RemoveFiles"
    | .installFiles => "InstallFiles"
    | .createShortcuts => "CreateShortcuts"
    | .writeRegistryValues => "WriteRegistryValues"
    | .writeEnvironmentStrings => "WriteEnvironmentStrings"
    | .registerProduct => "RegisterProduct"
    | .publishFeatures => "PublishFeatures"
    | .publishProduct => "PublishProduct"
    | .installFinalize => "InstallFinalize"
  find_spelling a := by cases a <;> decide

namespace Phase

/-- The phases in the order in which they run. -/
def all : List Phase := Keyword.all

def name (p : Phase) : String := Keyword.spelling p

def ofName? (name : String) : Option Phase := Keyword.read? name

/-- The sequence number that the installer gives the phase. -/
def number : Phase → Nat
  | .costInitialize => 800
  | .costFinalize => 1000
  | .installValidate => 1400
  | .installInitialize => 1500
  | .processComponents => 1600
  | .unpublishFeatures => 1800
  | .removeRegistryValues => 2600
  | .removeShortcuts => 3200
  | .removeFiles => 3500
  | .installFiles => 4000
  | .createShortcuts => 4500
  | .writeRegistryValues => 5000
  | .writeEnvironmentStrings => 5200
  | .registerProduct => 6100
  | .publishFeatures => 6300
  | .publishProduct => 6400
  | .installFinalize => 6600

/-- The names of the phases, in order. -/
def names : List String := all.map name

/-- The phases run in the order of their numbers. -/
theorem numbers_ascending : (all.map number).Pairwise (· < ·) := by decide

/-- A name is a phase's exactly if it is among the names of the phases. -/
theorem ofName?_isSome_iff (s : String) : (ofName? s).isSome ↔ s ∈ names := by
  constructor
  · intro h
    obtain ⟨p, hp⟩ := Option.isSome_iff_exists.mp h
    have hs : s = p.name := Keyword.read?_eq_some_iff.mp hp
    exact List.mem_map.mpr ⟨p, by cases p <;> decide, hs.symm⟩
  · intro h
    obtain ⟨p, _, rfl⟩ := List.mem_map.mp h
    exact Option.isSome_iff_exists.mpr ⟨p, Keyword.read?_spelling p⟩

end Phase
end Installer
