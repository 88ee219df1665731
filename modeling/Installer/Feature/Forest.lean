import Installer.Distinct
import Installer.Package.Basic
import Installer.Violation

/-!
# The forest of features

A feature is installed by default if its level, and that of every feature around it, is from one up to
the install level. No id may be taken twice, and every component that is named has to be known.

Features are put into the tree one after another, each before those in it, and the first that breaks a
rule ends it. The nodes of a tree are told apart by their positions: a node knows the one that it lies
in by its position, and takes from there whether that one is installed by default. It keeps no list of
those that lie in it, as nothing asks for them.
-/

set_option autoImplicit false

namespace Installer

/-- A feature in a tree, without those in it. -/
structure FeatureNode where
  id : String
  title : String
  description : String
  /-- The position of the feature that it lies in. -/
  parent : Option Nat
  level : UInt16
  allowAbsent : Bool
  display : FeatureDisplay
  components : List String
  /-- Whether it is installed unless the user decides otherwise. -/
  byDefault : Bool
  deriving DecidableEq, Repr

/-- A tree of features. -/
structure FeatureTree where
  nodes : List FeatureNode
  deriving DecidableEq, Repr

/-- Whether a level is one that is installed by default. -/
def Feature.isInstalled (installLevel level : UInt16) : Bool := 0 < level && level ≤ installLevel

namespace FeatureTree

/-- The tree that has no features. -/
def empty : FeatureTree := ⟨[]⟩

variable (t : FeatureTree)

def ids : List String := t.nodes.map (·.id)

def idAt (p : Nat) : String := t.nodes[p]?.elim "" (·.id)

def isDefaultAt (p : Nat) : Bool := t.nodes[p]?.any (·.byDefault)

def push (node : FeatureNode) : FeatureTree := ⟨t.nodes ++ [node]⟩

/-- Puts a feature, without those in it, into a tree, inside the one at `parent` or in none, or finds
the first rule that it breaks. -/
def add (installLevel : UInt16) (known : List String) (parent : Option Nat)
    (f : Manifest.Feature) : Except Violation FeatureTree := do
  if t.ids.contains f.id then throw (.duplicateFeatureId f.id)
  match f.components.find? fun c => !known.contains c with
  | some c => throw (.unresolvedComponent f.id c)
  | none => return t.push {
      id := f.id
      title := f.title
      description := f.description
      level := f.level
      allowAbsent := f.allowAbsent
      display := f.display
      components := f.components
      byDefault := parent.all t.isDefaultAt && Feature.isInstalled installLevel f.level
      parent }

mutual
/-- Puts a feature into a tree and after it all features in it. -/
def insert (installLevel : UInt16) (known : List String) (parent : Option Nat) :
    Manifest.Feature → FeatureTree → Except Violation FeatureTree
  | f@⟨_, _, _, _, _, _, _, children⟩, t => do
    let grown ← t.add installLevel known parent f
    insertAll installLevel known (some t.nodes.length) children grown
/-- Puts several features into a tree, in their order. -/
def insertAll (installLevel : UInt16) (known : List String) (parent : Option Nat) :
    List Manifest.Feature → FeatureTree → Except Violation FeatureTree
  | [], t => .ok t
  | f :: rest, t => do
    let grown ← insert installLevel known parent f t
    insertAll installLevel known parent rest grown
end

/-- The tree of a forest whose features name components of `known`, or the first rule that it
breaks. -/
def build (installLevel : UInt16) (known : List String) (forest : List Manifest.Feature) :
    Except Violation FeatureTree :=
  insertAll installLevel known none forest empty

/-- The features as packages list them, in the order of their positions. -/
def listing : List Package.Feature :=
  t.nodes.map fun node => {
    id := node.id
    title := node.title
    description := node.description
    parent := node.parent.map t.idAt
    level := node.level
    allowAbsent := node.allowAbsent
    display := node.display
    components := node.components
    byDefault := node.byDefault }

end FeatureTree

namespace Feature

/-- The listing of a forest whose features name components of `known`, or the first rule that it
breaks. -/
def list (installLevel : UInt16) (known : List String) (forest : List Manifest.Feature) :
    Except Violation (List Package.Feature) :=
  (FeatureTree.build installLevel known forest).map (·.listing)

/-- All components that features name, with repeats. -/
def named (features : List Package.Feature) : List String := features.flatMap (·.components)

/-- The features that are installed by default. -/
def defaults (features : List Package.Feature) : List Package.Feature :=
  features.filter (·.byDefault)

/-- The components that are installed by default, in the order in which features name them first. -/
def defaultComponents (features : List Package.Feature) : List String :=
  Distinct.firsts (named (defaults features))

end Feature
end Installer
