import Installer.Proofs.Package.Compilation

/-!
# Compiled packages are closed

Whatever a directory, an item, a feature, an action or a condition of a compiled package refers to is
in the package, and ids are taken once. Main statement: `compile_isClosed`.

**What it does not establish.** It is said of compiled packages alone, and of references inside them:
whether the files that they name exist on a disk is not looked at. Only a condition's names are
followed, not what it comes to.
-/

set_option autoImplicit false

namespace Installer
open Result

/-- References of an item stay good where more is there. -/
theorem Item.IsClosed.mono {files files' directories : List String} {i : Item}
    (h : i.IsClosed files directories) (hfiles : files ⊆ files') : i.IsClosed files' directories := by
  cases i with
  | file | registry => trivial
  | environment e => exact h
  | removeFolder r => exact h
  | shortcut s =>
    obtain ⟨htarget, hicon, hplaces⟩ := h
    exact ⟨hfiles htarget, fun icon hmem => hfiles (hicon icon hmem), hplaces⟩

/-- Every reference in a package is to something in it. -/
structure Package.IsClosed (p : Package) : Prop where
  directories_nodup : (p.directories.map (·.id)).Nodup
  target_unlisted : StandardFolder.targetDir.id ∉ p.directories.map (·.id)
  /-- From every directory the parents lead to the target directory, through listed ones. -/
  directories_lead : ∀ d ∈ p.directories, ∃ parent, d.parent = some parent ∧
    DirectoryTree.Leads p.directories parent
  components_nodup : (p.components.map (·.id)).Nodup
  component_directory : ∀ c ∈ p.components, c.directory ∈ p.knownDirectories
  items_nodup : (ComponentGraph.itemIds p.components).Nodup
  /-- A component has one item marked as key path, a file or a registry value. -/
  key_item : ∀ c ∈ p.components, ∃ key, c.items.filter (·.keyPath) = [key] ∧
    key.canBeKeyPath ∧ key.id = c.keyPath
  items_closed : ∀ c ∈ p.components, ∀ i ∈ c.items, i.IsClosed p.fileIds p.knownDirectories
  action_file : ∀ a ∈ p.actions, a.fileKey ∈ p.fileIds
  features_nodup : (p.features.map (·.id)).Nodup
  /-- A feature comes after the one that it lies in. -/
  feature_parent : ∀ front f back, p.features = front ++ f :: back →
    ∀ parent ∈ f.parent, parent ∈ front.map (·.id)
  feature_components : ∀ f ∈ p.features, ∀ c ∈ f.components, c ∈ p.components.map (·.id)
  component_named : ∀ c ∈ p.components, ∃ f ∈ p.features, c.id ∈ f.components
  actions_nodup : (p.actions.map (·.id)).Nodup
  /-- The action steps are the custom actions, each once. -/
  action_steps : ((p.steps.filter (·.kind = .action)).map (·.name)).Perm (p.actions.map (·.id))
  /-- The condition of a step can be parsed, and names only what is known. -/
  conditions : ∀ t ∈ p.steps, ∀ text ∈ t.condition, ∃ c, Guard.Condition.parse text = .ok c ∧
    ∀ o ∈ c.expr.operands, ∀ name ∈ o.name?, name ∈ p.guardScope.namesFor o

namespace Manifest

/-- Every compiled package is closed. -/
theorem compile_isClosed {m : Manifest} {s : Settings} {p : Package} (h : m.compile s = .ok p) :
    p.IsClosed := by
  obtain ⟨i, expanded, upgradeCode, t, g, -, -, hsettles⟩ := compile_eq_ok h
  obtain ⟨hresolved, hcomponents, hitems⟩ := hsettles.resolved
  obtain ⟨-, hlist, hnamed, -⟩ := ComponentGraph.make_eq_ok_iff.mp hsettles.graph
  have hfeatures := Feature.check_eq_ok_iff.mp (Feature.list_eq_ok_iff.mp hlist).2
  have hknown := hsettles.ids_eq
  have hids := DirectoryTree.nodup_ids (DirectoryTree.nodup_seedIds _) hsettles.tree
  rw [hknown, Package.knownDirectories, List.nodup_cons] at hids
  have hactions := (Schedule.make_eq_ok hsettles.schedule).1
  have hsource : ∀ c ∈ p.components, ∃ d, Component.Resolves
      (componentContext i expanded upgradeCode t) d c := fun c hc => by
    obtain ⟨d, -, hd⟩ := exists_related hresolved.flip hc
    exact ⟨d, hd⟩
  constructor
  case directories_nodup => exact hids.2
  case target_unlisted => exact hids.1
  case directories_lead =>
    intro d hd
    rw [hsettles.directories] at hd ⊢
    exact DirectoryTree.exists_parent_leads hsettles.tree hd
  case components_nodup => exact hcomponents
  case component_directory =>
    intro c hc
    obtain ⟨d, hd⟩ := hsource c hc
    rw [hd.directory, ← hknown]
    exact hd.known
  case items_nodup => exact hitems
  case key_item =>
    intro c hc
    obtain ⟨d, hd⟩ := hsource c hc
    obtain ⟨key, ⟨hmarked, hcan⟩, hid, -⟩ := hd.key
    exact ⟨key, hmarked, hcan, hid.symm⟩
  case items_closed =>
    intro c hc item hitem
    obtain ⟨d, hd⟩ := hsource c hc
    rw [← hknown]
    exact (hd.closed item hitem).mono hsettles.fileKeys_subset
  case action_file =>
    intro a ha
    exact hsettles.fileKeys_subset (Schedule.checkActions_fileKey hactions ha)
  case features_nodup =>
    rw [hsettles.features]
    exact hfeatures.1.1
  case feature_parent =>
    intro front f back hsplit parent hparent
    exact Feature.parent_before hlist (hsettles.features.symm.trans hsplit) hparent
  case feature_components =>
    rw [hsettles.features, hsettles.components]
    exact hfeatures.2
  case component_named =>
    intro c hc
    rw [hsettles.components] at hc
    rw [hsettles.features]
    exact List.mem_flatMap.mp (hnamed c hc)
  case actions_nodup =>
    rw [Schedule.checkActions_ids hactions]
    exact (Schedule.actionsAfter_eq_ok hactions).2.1
  case action_steps =>
    rw [Schedule.checkActions_ids hactions]
    exact Schedule.make_action_steps hsettles.schedule
  case conditions =>
    intro step hstep text htext
    obtain ⟨_, c, hcheck, -⟩ := Schedule.make_conditions hsettles.schedule hstep htext
    rw [← hsettles.guardScope_eq]
    refine ⟨c, (Guard.check_eq_ok_iff.mp hcheck).1, fun o ho name hname => ?_⟩
    exact (Guard.names_of_check hcheck ho hname).2

/-- An editor with a directory, a start menu entry, a feature inside another and a guarded
action. -/
def editor : Manifest where
  product := {
    name := "Acme Editor"
    manufacturer := "Acme Corp"
    upgradeCode := "3F2504E0-4F89-11D3-9A0C-0305E82C3301"
    productCode := "6B29FC40-CA47-1067-B31D-00DD010662DA"
    version := "$\x7bversion\x7d"
    language := 1033
    codepage := 1252
    scope := .perMachine
    installLevel := 1
    upgrade := Upgrade.standard
    properties := .ofList [("EDITORMODE", "full")] }
  directories := [⟨"INSTALLFOLDER", "Acme Editor", some "$\x7bprogram_files\x7d", false⟩]
  components := [{
    id := "Main"
    directory := "INSTALLFOLDER"
    guid := "A0EEBC99-9C0B-4EF8-BB6D-6BB9BD380A11"
    win64 := none
    items := [.file ⟨"AcmeExe", "bin/acme.exe", none, true⟩]
    integrations := [.startMenu ⟨"AcmeMenu", "Acme Editor", "AcmeExe", some "INSTALLFOLDER", none,
      none, none, false⟩] }]
  features := [⟨"Core", "Acme Editor", "", 1, false, .collapse, [],
    [⟨"Editor", "Editor", "", 1, false, .collapse, ["Main"], []⟩]⟩]
  actions := [⟨"LaunchApp", "AcmeExe", .immediate, true, none, ""⟩]
  rules := [⟨"LaunchApp", none, some "InstallFinalize",
    some "NOT Installed AND &Editor = 3 AND EDITORMODE"⟩]

theorem compile_isClosed_editor :
    ∃ p, editor.compile ⟨some "x64", "1.4.2", "release", none, none, none, none, none⟩ = .ok p ∧
      p.IsClosed := by
  have hmade : (editor.compile
      ⟨some "x64", "1.4.2", "release", none, none, none, none, none⟩).isOk = true := by
    decide +kernel
  obtain ⟨p, hp⟩ := exists_of_isOk hmade
  exact ⟨p, hp, compile_isClosed hp⟩

end Manifest
end Installer
