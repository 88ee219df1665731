import Installer.Proofs.Payload.Generated

/-!
# The folders of the start menu that a component removes

Whether a folder is removed already is decided by the id that its removal would have. So the removal
of a folder is left out where something before it has that id (`RemovalIsTaken`): a declared item,
what an earlier entry comes to, or the entry's own shortcut. The first entry into a folder decides,
since after it the id is used (`removalsOf_itemsFrom_of_place`). Main statement:
`allItems_removals`.

The items of integrations are put together from the front. So the induction is on the integrations,
with the items before them left open: behind an entry into a folder the id is used, and nothing more
is added (`removalsOf_itemsFrom`).

**What it does not establish.** It is one component that is looked at. Two components may each remove
a folder that both have entries in, and a folder may go without a removal because another of its like
took the id.
-/

set_option autoImplicit false

namespace Installer
open Result

/-- The item removes the folder. -/
def Item.removes (folder : String) : Item → Bool
  | .removeFolder r => r.directory = folder
  | .file _ | .registry _ | .environment _ | .shortcut _ => false

/-- The removals of a folder among items. -/
def removalsOf (folder : String) (items : List Item) : List Item :=
  items.filter (Item.removes folder)

theorem removalsOf_append (folder : String) (items more : List Item) :
    removalsOf folder (items ++ more) = removalsOf folder items ++ removalsOf folder more :=
  List.filter_append ..

namespace StartMenuEntry

/-- The folder that an entry is put into. -/
def place (s : StartMenuEntry) : String := s.folder.getD standardFolder

/-- What an entry comes to has the id of the folder's removal. -/
def Takes (component folder : String) (s : StartMenuEntry) : Prop :=
  s.id = removalId component folder ∨
    (s.place ≠ standardFolder ∧ LooksAlike s.place folder) ∨
      (s.registryKeyPath ∧ s!"{s.id}_Installed" = removalId component folder)

instance (component folder : String) (s : StartMenuEntry) :
    Decidable (s.Takes component folder) :=
  inferInstanceAs (Decidable (_ ∨ _ ∨ _))

theorem toList_removalId (component folder : String) : (removalId component folder).toList =
    component.toList ++ ("_Remove".toList ++ (asId folder).toList) := by
  simp [removalId, toString]

theorem removalId_eq_iff {component folder folder' : String} :
    removalId component folder = removalId component folder' ↔ LooksAlike folder folder' := by
  rw [← String.toList_inj, toList_removalId, toList_removalId, List.append_cancel_left_eq,
    List.append_cancel_left_eq, String.toList_inj, asId_eq_iff]

/-- The removal of an entry's folder is left out: its id is used, or the folder is the standard
one. -/
def LeavesOut (component : String) (earlier : List Item) (s : StartMenuEntry) : Prop :=
  removalId component s.place ∈ s.id :: earlier.map (·.id) ∨ s.place = standardFolder

instance (component : String) (earlier : List Item) (s : StartMenuEntry) :
    Decidable (s.LeavesOut component earlier) :=
  inferInstanceAs (Decidable (_ ∨ _))

/-- The shortcut of an entry of a component in `directory`. -/
def shortcutFrom (directory : String) (s : StartMenuEntry) : Shortcut where
  id := s.id
  name := s.name
  target := s.target
  directory := s.place
  workingDirectory := some (s.workingDirectory.getD directory)
  icon := s.icon
  description := s.description
  arguments := none
  keyPath := false

/-- The registry value that an entry may add as key path. -/
def mark (context : Integration.Context) (s : StartMenuEntry) : RegistryValue where
  id := s!"{s.id}_Installed"
  root := .currentUser
  key := s!"Software\\{context.manufacturer}\\{context.product}"
  name := some s!"{s.id}_installed"
  value := "1"
  valueType := .integer
  keyPath := true

/-- The items of an entry: its shortcut, the removal of its folder, and its mark. -/
theorem items_eq (context : Integration.Context) (component directory : String)
    (earlier : List Item) (s : StartMenuEntry) : s.items context component directory earlier =
      .shortcut (s.shortcutFrom directory) ::
        (if s.LeavesOut component earlier then []
          else [.removeFolder ⟨removalId component s.place, s.place, false⟩]) ++
            if s.registryKeyPath then [.registry (s.mark context)] else [] := by
  have hused : (((earlier ++ [Item.shortcut (s.shortcutFrom directory)]).any
        fun i => i.id = removalId component s.place) || s.place = standardFolder) = true ↔
      s.LeavesOut component earlier := by
    have hitem : (Item.shortcut (s.shortcutFrom directory)).id = s.id := rfl
    unfold LeavesOut
    simp only [Bool.or_eq_true, List.any_append, List.any_cons, List.any_nil, Bool.or_false,
      List.any_eq_true, decide_eq_true_eq, List.mem_cons, List.mem_map, hitem]
    exact or_congr_left (or_comm.trans (or_congr_left eq_comm))
  rw [← if_congr hused rfl rfl]
  rfl

variable {context : Integration.Context} {component directory folder : String}
  {earlier : List Item} {s : StartMenuEntry}

/-- An entry removes its folder unless the id is used or the folder is the standard one. -/
theorem removalsOf_place_items :
    removalsOf s.place (s.items context component directory earlier) =
      if s.LeavesOut component earlier then []
      else [.removeFolder ⟨removalId component s.place, s.place, false⟩] := by
  rw [items_eq]
  unfold removalsOf
  split <;> cases s.registryKeyPath <;> simp [Item.removes]

/-- An entry removes no other folder. -/
theorem removalsOf_items_of_place_ne (h : s.place ≠ folder) :
    removalsOf folder (s.items context component directory earlier) = [] := by
  rw [items_eq]
  unfold removalsOf
  split <;> cases s.registryKeyPath <;> simp [Item.removes, h]

/-- After an entry the id of a removal is used if it was before, or the entry takes it. -/
theorem mem_ids_items : removalId component folder ∈
    (earlier ++ s.items context component directory earlier).map (·.id) ↔
      removalId component folder ∈ earlier.map (·.id) ∨ s.Takes component folder := by
  have hids : (earlier ++ s.items context component directory earlier).map (·.id) =
      earlier.map (·.id) ++ (s.id ::
        (if s.LeavesOut component earlier then [] else [removalId component s.place]) ++
          if s.registryKeyPath then [s!"{s.id}_Installed"] else []) := by
    rw [items_eq, List.map_append, List.map_append, List.map_cons, apply_ite (List.map Item.id),
      apply_ite (List.map Item.id)]
    rfl
  have hlike : LooksAlike s.place folder ↔
      removalId component folder = removalId component s.place :=
    removalId_eq_iff.symm.trans eq_comm
  have hmark : removalId component folder ∈
        (if s.registryKeyPath then [s!"{s.id}_Installed"] else []) ↔
      s.registryKeyPath ∧ s!"{s.id}_Installed" = removalId component folder := by
    cases s.registryKeyPath <;> simp [eq_comm]
  unfold Takes
  rw [hids, hlike, List.mem_append, List.mem_append, hmark, @eq_comm _ s.id]
  by_cases hout : s.LeavesOut component earlier
  · rw [if_pos hout, List.mem_singleton]
    constructor
    · rintro (h | h | h)
      · exact .inl h
      · exact .inr (.inl h)
      · exact .inr (.inr (.inr h))
    · rintro (h | h | ⟨hplace, h⟩ | h)
      · exact .inl h
      · exact .inr (.inl h)
      · -- the removal is left out because its id is used
        rw [h]
        rcases List.mem_cons.mp (hout.resolve_right hplace) with hid | hmem
        · exact .inr (.inl hid)
        · exact .inl hmem
      · exact .inr (.inr h)
  · rw [if_neg hout, List.mem_pair, or_assoc]
    have hplace : s.place ≠ standardFolder := fun h => hout (.inr h)
    simp only [hplace, ne_eq, not_false_eq_true, true_and]

/-- The id of a folder's removal is used before the first of the entries into the folder has its
shortcut, or by that. -/
def IsTakenBy (component folder : String) (entries : List StartMenuEntry) : Prop :=
  (∃ t ∈ entries.takeWhile (·.place ≠ folder), t.Takes component folder) ∨
    ∃ s ∈ entries.find? (·.place = folder), s.id = removalId component folder

instance (component folder : String) (entries : List StartMenuEntry) :
    Decidable (IsTakenBy component folder entries) :=
  inferInstanceAs (Decidable (_ ∨ _))

theorem isTakenBy_cons_of_place {rest : List StartMenuEntry}
    (h : s.place = folder) :
    IsTakenBy component folder (s :: rest) ↔ s.id = removalId component folder := by
  simp [IsTakenBy, h]

theorem isTakenBy_cons_of_place_ne {rest : List StartMenuEntry}
    (h : s.place ≠ folder) : IsTakenBy component folder (s :: rest) ↔
      s.Takes component folder ∨ IsTakenBy component folder rest := by
  simp [IsTakenBy, h, or_assoc]

end StartMenuEntry

/-- The entry of the start menu that an integration is. -/
def Integration.entry? : Integration → Option StartMenuEntry
  | .startMenu s => some s
  | .path _ | .fileAssociation _ => none

namespace Component
open StartMenuEntry

variable {context : Integration.Context} {component directory folder : String} {n : Nat}
  {earlier items : List Item}

/-- What other integrations come to has no removal's id, and is none. -/
theorem apart_of_itemsOf {intent : Integration} {more : List Item}
    (h : itemsOf context component directory n earlier intent = .ok more)
    (hnone : intent.entry? = none) :
    removalId component folder ∉ more.map (·.id) ∧ removalsOf folder more = [] := by
  cases intent with
  | startMenu s => cases hnone
  | path p =>
    unfold itemsOf PathEntry.items at h
    cases hpermanent : p.permanent with
    | none => simp [hpermanent] at h
    | some permanent =>
      simp only [hpermanent, Except.ok.injEq] at h
      subst h
      constructor
      · rw [List.map_singleton, List.mem_singleton, ← String.toList_inj, toList_removalId]
        simp [Item.id, PathEntry.itemId, toString]
      · simp [removalsOf, Item.removes]
  | fileAssociation a =>
    constructor
    · rw [FileAssociation.ids_of_items h]
      intro hmem
      obtain ⟨part, -, heq⟩ := List.mem_map.mp hmem
      rw [← String.toList_inj, FileAssociation.toList_partId, FileAssociation.toList_baseId,
        toList_removalId] at heq
      simp at heq
    · unfold removalsOf
      rw [List.filter_eq_nil_iff]
      intro i hi
      obtain ⟨r, rfl⟩ := FileAssociation.registry_of_items h i hi
      simp [Item.removes]

theorem itemsOf_of_entry {intent : Integration} {s : StartMenuEntry}
    (h : intent.entry? = some s) : itemsOf context component directory n earlier intent =
      .ok (s.items context component directory earlier) := by
  cases intent with
  | startMenu s' =>
    cases h
    rfl
  | path p => cases h
  | fileAssociation a => cases h

/-- A folder is not removed once more where the id of its removal is used already, and where nothing
is put into it. -/
theorem removalsOf_itemsFrom {intents : List Integration} : ∀ {n : Nat} {earlier items : List Item},
    Manifest.Component.itemsFrom context component directory n earlier intents = .ok items →
      (removalId component folder ∈ earlier.map (·.id) ∨ folder = standardFolder ∨
        ∀ s ∈ intents.filterMap Integration.entry?, s.place ≠ folder) →
      removalsOf folder items = removalsOf folder earlier := by
  induction intents with
  | nil =>
    intro n earlier items h hkept
    cases h
    rfl
  | cons intent rest ih =>
    intro n earlier items h hkept
    rw [itemsFrom_cons] at h
    obtain ⟨more, hmore, hrest⟩ := bind_eq_ok.mp h
    have hkept' : removalId component folder ∈ (earlier ++ more).map (·.id) ∨
        folder = standardFolder ∨
          ∀ s ∈ rest.filterMap Integration.entry?, s.place ≠ folder := by
      refine hkept.imp (fun hused => ?_) (Or.imp_right fun hout s hs => ?_)
      · rw [List.map_append]
        exact List.mem_append_left _ hused
      · apply hout s
        rw [← List.singleton_append, List.filterMap_append]
        exact List.mem_append_right _ hs
    have hnone : removalsOf folder more = [] := by
      cases hentry : intent.entry? with
      | none => exact (apart_of_itemsOf hmore hentry).2
      | some s =>
        rw [itemsOf_of_entry hentry] at hmore
        cases hmore
        by_cases hplace : s.place = folder
        · subst hplace
          rw [removalsOf_place_items, if_pos]
          rcases hkept with hused | hstandard | hout
          · exact .inl (List.mem_cons_of_mem _ hused)
          · exact .inr hstandard
          · rw [List.filterMap_cons_some hentry] at hout
            exact absurd rfl (hout s List.mem_cons_self)
        · exact removalsOf_items_of_place_ne hplace
    rw [ih hrest hkept', removalsOf_append, hnone, List.append_nil]

/-- The first entry into a folder adds its removal, unless the id is used by then. -/
theorem removalsOf_itemsFrom_of_place (hfolder : folder ≠ standardFolder)
    {intents : List Integration} : ∀ {n : Nat} {earlier items : List Item},
    Manifest.Component.itemsFrom context component directory n earlier intents = .ok items →
      (∃ s ∈ intents.filterMap Integration.entry?, s.place = folder) →
      removalsOf folder items = removalsOf folder earlier ++
        if removalId component folder ∈ earlier.map (·.id) ∨
          IsTakenBy component folder (intents.filterMap Integration.entry?) then []
        else [.removeFolder ⟨removalId component folder, folder, false⟩] := by
  induction intents with
  | nil =>
    rintro n earlier items - ⟨s, hs, -⟩
    cases hs
  | cons intent rest ih =>
    intro n earlier items h hinto
    rw [itemsFrom_cons] at h
    obtain ⟨more, hmore, hrest⟩ := bind_eq_ok.mp h
    cases hentry : intent.entry? with
    | none =>
      obtain ⟨hid, hnone⟩ : removalId component folder ∉ more.map (·.id) ∧
          removalsOf folder more = [] := apart_of_itemsOf hmore hentry
      rw [List.filterMap_cons_none hentry] at hinto ⊢
      have hused : removalId component folder ∈ (earlier ++ more).map (·.id) ↔
          removalId component folder ∈ earlier.map (·.id) := by
        rw [List.map_append, List.mem_append, or_iff_left hid]
      rw [ih hrest hinto, removalsOf_append, hnone, List.append_nil,
        if_congr (or_congr_left hused) rfl rfl]
    | some s =>
      rw [itemsOf_of_entry hentry] at hmore
      cases hmore
      rw [List.filterMap_cons_some hentry] at hinto ⊢
      by_cases hplace : s.place = folder
      · -- from here on the id is used, by the removal if by nothing else
        subst hplace
        have htakes : s.Takes component s.place := .inr (.inl ⟨hfolder, asId_eq_iff.mp rfl⟩)
        have hrest' : removalsOf s.place items =
            removalsOf s.place (earlier ++ s.items context component directory earlier) :=
          removalsOf_itemsFrom hrest (.inl (mem_ids_items.mpr (.inr htakes)))
        rw [hrest', removalsOf_append, removalsOf_place_items]
        refine congrArg _ (if_congr ?_ rfl rfl)
        unfold LeavesOut
        rw [isTakenBy_cons_of_place rfl, or_iff_left hfolder, List.mem_cons, or_comm,
          @eq_comm _ s.id]
      · have hinto' : ∃ t ∈ rest.filterMap Integration.entry?, t.place = folder := by
          obtain ⟨t, ht, hplace'⟩ := hinto
          exact ⟨t, (List.mem_cons.mp ht).resolve_left fun heq => hplace (heq ▸ hplace'), hplace'⟩
        rw [ih hrest hinto', removalsOf_append, removalsOf_items_of_place_ne hplace,
          List.append_nil]
        refine congrArg _ (if_congr ?_ rfl rfl)
        rw [mem_ids_items, isTakenBy_cons_of_place_ne hplace, or_assoc]

end Component

namespace Manifest.Component
open StartMenuEntry

/-- The component's entries of the start menu. -/
def entries (c : Component) : List StartMenuEntry := c.integrations.filterMap Integration.entry?

/-- The id that the removal of a folder would have is used before the folder is removed. -/
def RemovalIsTaken (c : Component) (folder : String) : Prop :=
  removalId c.id folder ∈ c.items.map (·.id) ∨ IsTakenBy c.id folder c.entries

instance (c : Component) (folder : String) : Decidable (c.RemovalIsTaken folder) :=
  inferInstanceAs (Decidable (_ ∨ _))

/-- The removals of a folder with an entry are those declared, and one more unless its id is
taken. -/
theorem removalsOf_allItems {context : Integration.Context} {c : Component} {items : List Item}
    (h : c.allItems context = .ok items) {s : StartMenuEntry} (hs : s ∈ c.entries)
    (hplace : s.place ≠ standardFolder) :
    removalsOf s.place items = removalsOf s.place c.items ++
      if c.RemovalIsTaken s.place then []
      else [.removeFolder ⟨removalId c.id s.place, s.place, false⟩] :=
  Installer.Component.removalsOf_itemsFrom_of_place hplace h ⟨s, hs, rfl⟩

/-- A component with an entry in a folder has exactly one removal of it if none is declared and its
id is not taken before, or if one is declared and the id is taken. What is generated removes no
folder without an entry, and never the standard folder. -/
theorem allItems_removals {context : Integration.Context} {c : Component} {items : List Item}
    (h : c.allItems context = .ok items) :
    (∀ s ∈ c.entries, s.place ≠ standardFolder →
      ((removalsOf s.place items).length = 1 ↔
        (¬c.RemovalIsTaken s.place ∧ removalsOf s.place c.items = []) ∨
          (c.RemovalIsTaken s.place ∧ (removalsOf s.place c.items).length = 1))) ∧
      ∃ generated, items = c.items ++ generated ∧
        ∀ folder, (folder = standardFolder ∨ ∀ s ∈ c.entries, s.place ≠ folder) →
          removalsOf folder generated = [] := by
  constructor
  · intro s hs hplace
    rw [removalsOf_allItems h hs hplace]
    by_cases htaken : c.RemovalIsTaken s.place <;> simp [htaken]
  · obtain ⟨generated, rfl⟩ := Installer.Component.prefix_allItems h
    refine ⟨generated, rfl, ?_⟩
    intro folder hfolder
    have hkept : removalsOf folder (c.items ++ generated) = removalsOf folder c.items :=
      Installer.Component.removalsOf_itemsFrom h (.inr hfolder)
    rw [removalsOf_append] at hkept
    exact List.append_right_eq_self.mp hkept

/-- A component with an entry in each of the folders, by the entries' ids. -/
def menus (folders : List (String × String)) : Component where
  id := "Main"
  directory := "INSTALLFOLDER"
  guid := "auto"
  win64 := none
  items := [.file ⟨"AcmeExe", "acme.exe", none, true⟩]
  integrations := folders.map fun entry =>
    .startMenu ⟨entry.1, "Acme Editor", "AcmeExe", some entry.2, none, none, none, false⟩

def menusContext : Integration.Context := ⟨.perMachine, "Acme Corp", "Acme Editor", ["AcmeExe"]⟩

/-- Two entries in one folder. -/
def sharedMenu : Component := menus [("Open", "AcmeMenu"), ("Help", "AcmeMenu")]

/-- Two entries in folders that look alike. -/
def alikeMenus : Component := menus [("Open", "Acme-Menu"), ("Help", "Acme_Menu")]

/-- Two entries in one folder share its removal. -/
theorem allItems_removals_shared : ∃ items, sharedMenu.allItems menusContext = .ok items ∧
    (∀ s ∈ sharedMenu.entries, s.place = "AcmeMenu") ∧
      (removalsOf "AcmeMenu" items).length = 1 := by
  obtain ⟨items, h⟩ : ∃ items, sharedMenu.allItems menusContext = .ok items :=
    exists_of_isOk (by decide +kernel)
  have hplaces : sharedMenu.entries.map place = ["AcmeMenu", "AcmeMenu"] := by
    decide +kernel
  have hfree : ¬sharedMenu.RemovalIsTaken "AcmeMenu" ∧
      removalsOf "AcmeMenu" sharedMenu.items = [] := by
    decide +kernel
  have hall : ∀ s ∈ sharedMenu.entries, s.place = "AcmeMenu" := by
    intro s hs
    have hmem := List.mem_map_of_mem (f := place) hs
    rw [hplaces] at hmem
    simpa using hmem
  obtain ⟨s, hs⟩ : ∃ s, s ∈ sharedMenu.entries := ⟨_, List.mem_cons_self⟩
  have hplace := hall s hs
  refine ⟨items, h, hall, ?_⟩
  rw [← hplace]
  apply ((allItems_removals h).1 s hs ?_).mpr
  · rw [hplace]
    exact .inl hfree
  · rw [hplace]
    decide

/-- Of two folders that look alike only the one is removed that is named first. -/
theorem allItems_loses_removal : ∃ items, alikeMenus.allItems menusContext = .ok items ∧
    (∃ s ∈ alikeMenus.entries, s.place = "Acme_Menu" ∧ s.place ≠ standardFolder) ∧
      removalsOf "Acme_Menu" items = [] := by
  have hlost : (alikeMenus.allItems menusContext).map (removalsOf "Acme_Menu") = .ok [] := by
    decide +kernel
  obtain ⟨items, h, hnone⟩ := map_eq_ok.mp hlost
  have hnamed : ∃ s ∈ alikeMenus.entries, s.place = "Acme_Menu" ∧ s.place ≠ standardFolder := by
    decide +kernel
  exact ⟨items, h, hnamed, hnone⟩

end Manifest.Component
end Installer
