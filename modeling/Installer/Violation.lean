import Installer.Guard.Token
import Installer.Version

/-!
# The rules that a manifest can break

A violation says which rule is broken and by what. Each belongs to one category, and its message is
made from what it holds and from nothing else.
-/

set_option autoImplicit false

namespace Installer

/-- Why a text is not a template. -/
inductive TemplateFault
  | unterminated
  | emptyName
  | unknownName (name : String)
  deriving DecidableEq, Repr

def TemplateFault.message : TemplateFault → String
  | .unterminated => "unterminated '$\x7b'"
  | .emptyName => "empty variable name"
  | .unknownName name => s!"unknown variable '{name}'"

/-- What is wrong with a sequence rule on its own. -/
inductive RuleFault
  | twoAnchors
  | noAnchor
  | guardedPhase
  deriving DecidableEq, Repr

def RuleFault.message : RuleFault → String
  | .twoAnchors => "a rule names either 'before' or 'after', not both"
  | .noAnchor => "a rule must name 'before' or 'after'"
  | .guardedPhase => "guard conditions apply only to custom actions"

/-- What kind of rule is broken. -/
inductive Category
  /-- A name that stands for nothing. -/
  | reference
  /-- A declaration that contradicts another or lacks something. -/
  | invariant
  /-- An order that cannot be kept. -/
  | ordering
  /-- A value outside its domain. -/
  | domain
  deriving DecidableEq, Repr

def Category.name : Category → String
  | .reference => "reference"
  | .invariant => "invariant"
  | .ordering => "ordering"
  | .domain => "domain"

/-- A broken rule. -/
inductive Violation
  | unsupportedPlatform (selector : String)
  | malformedTemplate (template : String) (fault : TemplateFault)
  | malformedVersion (version : String) (fault : VersionFault)
  | missingInjectedValue (name : String)
  | upgradeCodeChanged (previous current : String)
  | staleStabilityKey (component guid : String)
  | duplicateDirectoryId (id : String)
  | unusedDirectory (id : String)
  | duplicateComponentId (id : String)
  | duplicateItemId (id : String)
  | duplicateFeatureId (id : String)
  | duplicateActionId (id : String)
  | missingKeyPath (component : String)
  | multipleKeyPaths (component : String) (items : List String)
  | keyPathNotAllowed (component item : String)
  | invalidGuid (owner value : String)
  | missingPermanence (component item : String)
  | missingReturnPolicy (action : String)
  | invalidRule (action : String) (fault : RuleFault)
  | unscheduledAction (action : String)
  | malformedGuard (action : String) (fault : Guard.Fault)
  | guardDependsOnAction (action : String)
  | danglingParent (directory parent : String)
  | danglingDirectory (owner directory : String)
  | unresolvedComponent (feature component : String)
  | orphanComponent (component : String)
  | unresolvedFile (owner fileKey : String)
  | unknownAction (action : String)
  | unknownGuardVariable (action name : String)
  | orderingContradiction (cycle : List String)
  | deferredOutsideScript (action : String)
  | sequenceGapExhausted (anchor : String)
  deriving DecidableEq, Repr

namespace Violation

/-- The name of the broken rule. -/
def name : Violation → String
  | .unsupportedPlatform _ => "UnsupportedPlatform"
  | .malformedTemplate _ _ => "MalformedTemplate"
  | .malformedVersion _ _ => "MalformedVersion"
  | .missingInjectedValue _ => "MissingInjectedValue"
  | .upgradeCodeChanged _ _ => "UpgradeCodeChanged"
  | .staleStabilityKey _ _ => "StaleStabilityKey"
  | .duplicateDirectoryId _ => "DuplicateDirectoryId"
  | .unusedDirectory _ => "UnusedDirectory"
  | .duplicateComponentId _ => "DuplicateComponentId"
  | .duplicateItemId _ => "DuplicateItemId"
  | .duplicateFeatureId _ => "DuplicateFeatureId"
  | .duplicateActionId _ => "DuplicateActionId"
  | .missingKeyPath _ => "MissingKeyPath"
  | .multipleKeyPaths _ _ => "MultipleKeyPaths"
  | .keyPathNotAllowed _ _ => "KeyPathNotAllowed"
  | .invalidGuid _ _ => "InvalidGuid"
  | .missingPermanence _ _ => "MissingPermanenceFlag"
  | .missingReturnPolicy _ => "MissingReturnPolicy"
  | .invalidRule _ _ => "InvalidSequenceRule"
  | .unscheduledAction _ => "UnscheduledAction"
  | .malformedGuard _ _ => "MalformedGuard"
  | .guardDependsOnAction _ => "GuardDependsOnAction"
  | .danglingParent _ _ => "DanglingParentReference"
  | .danglingDirectory _ _ => "DanglingDirectoryRef"
  | .unresolvedComponent _ _ => "UnresolvedComponentRef"
  | .orphanComponent _ => "OrphanComponent"
  | .unresolvedFile _ _ => "UnresolvedFileKey"
  | .unknownAction _ => "UnknownAction"
  | .unknownGuardVariable _ _ => "UnknownGuardVariable"
  | .orderingContradiction _ => "OrderingContradiction"
  | .deferredOutsideScript _ => "DeferredOutsideScript"
  | .sequenceGapExhausted _ => "SequenceGapExhausted"

def category : Violation → Category
  | .unsupportedPlatform _ | .malformedTemplate _ _ | .malformedVersion _ _
  | .missingInjectedValue _ | .upgradeCodeChanged _ _ | .staleStabilityKey _ _ => .domain
  | .duplicateDirectoryId _ | .unusedDirectory _ | .duplicateComponentId _ | .duplicateItemId _
  | .duplicateFeatureId _ | .duplicateActionId _ | .missingKeyPath _ | .multipleKeyPaths _ _
  | .keyPathNotAllowed _ _ | .invalidGuid _ _ | .missingPermanence _ _ | .missingReturnPolicy _
  | .invalidRule _ _ | .unscheduledAction _ | .malformedGuard _ _ | .guardDependsOnAction _ =>
    .invariant
  | .danglingParent _ _ | .danglingDirectory _ _ | .unresolvedComponent _ _ | .orphanComponent _
  | .unresolvedFile _ _ | .unknownAction _ | .unknownGuardVariable _ _ => .reference
  | .orderingContradiction _ | .deferredOutsideScript _ | .sequenceGapExhausted _ => .ordering

/-- The sentence that tells the manifest's author what is broken. -/
def message : Violation → String
  | .unsupportedPlatform selector =>
    s!"Unsupported platform selector '{selector}' (supported: x86, x64)"
  | .malformedTemplate template fault => s!"Malformed template '{template}': {fault.message}"
  | .malformedVersion version fault => s!"Malformed version '{version}': {fault.message}"
  | .missingInjectedValue name =>
    s!"Template references '{name}' but no value was injected for it"
  | .upgradeCodeChanged previous current =>
    s!"Upgrade code changed from {previous} to {current}; " ++
      "it must stay fixed for the life of the product"
  | .staleStabilityKey component guid =>
    s!"Component '{component}' keeps stability key {guid} but its key path changed; " ++
      "assign a new key or use \"auto\""
  | .duplicateDirectoryId id => s!"Directory id '{id}' is declared more than once"
  | .unusedDirectory id =>
    s!"Directory '{id}' is not used by any component or shortcut " ++
      "and is not marked as a grouping directory"
  | .duplicateComponentId id => s!"Component id '{id}' is declared more than once"
  | .duplicateItemId id => s!"Payload item id '{id}' is declared more than once"
  | .duplicateFeatureId id => s!"Feature id '{id}' is declared more than once"
  | .duplicateActionId id =>
    s!"Custom action id '{id}' is declared more than once or collides with a lifecycle phase"
  | .missingKeyPath component => s!"Component '{component}' has no key path item"
  | .multipleKeyPaths component items =>
    s!"Component '{component}' has more than one key path item: " ++ ", ".intercalate items
  | .keyPathNotAllowed component item =>
    s!"Item '{item}' in component '{component}' cannot be a key path " ++
      "(only files and registry values can)"
  | .invalidGuid owner value => s!"'{owner}' has an invalid GUID '{value}'"
  | .missingPermanence component item =>
    s!"PATH/environment mutation '{item}' in component '{component}' " ++
      "must declare whether it is permanent"
  | .missingReturnPolicy action =>
    s!"Deferred custom action '{action}' must declare a return policy " ++
      "(check, ignore, async_wait or async_no_wait)"
  | .invalidRule action fault => s!"Sequence rule for '{action}' is invalid: {fault.message}"
  | .unscheduledAction action => s!"Custom action '{action}' is declared but never sequenced"
  | .malformedGuard action fault =>
    s!"Guard condition of '{action}' is malformed: {fault.message}"
  | .guardDependsOnAction action =>
    s!"Guard condition of '{action}' depends on the action's own outcome"
  | .danglingParent directory parent =>
    s!"Directory '{directory}' names parent '{parent}', which is not declared"
  | .danglingDirectory owner directory =>
    s!"'{owner}' references directory '{directory}', which is not declared"
  | .unresolvedComponent feature component =>
    s!"Feature '{feature}' references component '{component}', which is not declared"
  | .orphanComponent component => s!"Component '{component}' is not referenced by any feature"
  | .unresolvedFile owner fileKey =>
    s!"'{owner}' references file key '{fileKey}', which is not a declared file"
  | .unknownAction action =>
    s!"Sequence rule references '{action}', " ++
      "which is neither a custom action nor a lifecycle phase"
  | .unknownGuardVariable action name =>
    s!"Guard condition of '{action}' references unknown state variable '{name}'"
  | .orderingContradiction cycle =>
    "Sequencing rules contradict each other: " ++ " -> ".intercalate cycle
  | .deferredOutsideScript action =>
    s!"In-script custom action '{action}' must be sequenced " ++
      "between InstallInitialize and InstallFinalize"
  | .sequenceGapExhausted anchor =>
    s!"Too many custom actions sequenced after '{anchor}' to fit before the next phase"

end Violation
end Installer
