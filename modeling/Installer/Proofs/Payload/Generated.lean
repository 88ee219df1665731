import Mathlib.Data.List.Nodup
import Installer.Proofs.Component.Resolution
import Installer.Proofs.Identity

/-!
# The ids of generated items

Ids are glued together from the id of a component or entry and from texts that are made fit for ids,
which loses what tells some texts apart: they look alike (`asId_eq_iff`). Parts of one association
keep their ids apart, so that two associations share an id exactly if they have one base
(`FileAssociation.disjoint_idsOn_iff`), and within a component that is if their extensions look
alike (`FileAssociation.baseId_eq_iff`).

**What it does not establish.** That ids differ across components is not said: a component's id may
end as another's generated id does, and then the graph refuses one of the two.
-/

set_option autoImplicit false

namespace Installer
open Result

/-- The texts are the same but for characters that are neither letters nor digits of ASCII, at the
same places in both. -/
def LooksAlike (s t : String) : Prop :=
  List.Forall₂ (fun c d => c = d ∨ (c.isAlphanum = false ∧ d.isAlphanum = false)) s.toList t.toList

/-- What stands in an id for a character. -/
def idChar (c : Char) : Char := if c.isAlphanum || c == '_' then c else '_'

theorem idChar_of_isAlphanum {c : Char} (h : c.isAlphanum = true) : idChar c = c := by
  unfold idChar
  rw [h, Bool.true_or, if_pos rfl]

theorem idChar_of_not_isAlphanum {c : Char} (h : c.isAlphanum = false) : idChar c = '_' := by
  unfold idChar
  by_cases hc : c = '_'
  · rw [hc]
    rfl
  · rw [h, beq_false_of_ne hc, Bool.or_self, if_neg Bool.false_ne_true]

theorem idChar_eq_iff {c d : Char} :
    idChar c = idChar d ↔ c = d ∨ (c.isAlphanum = false ∧ d.isAlphanum = false) := by
  -- a letter or digit is told from whatever is replaced
  have hapart : ∀ {c d : Char}, c.isAlphanum = true → d.isAlphanum = false →
      c ≠ d ∧ idChar c ≠ idChar d := by
    intro c d hc hd
    rw [idChar_of_isAlphanum hc, idChar_of_not_isAlphanum hd]
    constructor
    · rintro rfl
      rw [hc] at hd
      cases hd
    · rintro rfl
      revert hc
      decide
  cases hc : c.isAlphanum <;> cases hd : d.isAlphanum
  · simp [idChar_of_not_isAlphanum hc, idChar_of_not_isAlphanum hd]
  · simp [(hapart hd hc).1.symm, (hapart hd hc).2.symm]
  · simp [(hapart hc hd).1, (hapart hc hd).2]
  · simp [idChar_of_isAlphanum hc, idChar_of_isAlphanum hd]

/-- Texts are made one id exactly if they look alike. -/
theorem asId_eq_iff {s t : String} : asId s = asId t ↔ LooksAlike s t := by
  have hlists : ∀ cs ds : List Char, cs.map idChar = ds.map idChar ↔
      List.Forall₂ (fun c d => c = d ∨ (c.isAlphanum = false ∧ d.isAlphanum = false)) cs ds := by
    intro cs
    induction cs with
    | nil => intro ds; cases ds <;> simp
    | cons c cs ih =>
      intro ds
      cases ds with
      | nil => simp
      | cons d ds => simp [ih, idChar_eq_iff]
  unfold LooksAlike
  rw [← hlists]
  exact String.ofList_inj

instance (s t : String) : Decidable (LooksAlike s t) :=
  decidable_of_iff (asId s = asId t) asId_eq_iff

/-- What follows the last bar can be told from what is before it. -/
theorem append_cons_eq_iff_of_not_mem {bar : Char} {a b c d : List Char} (hb : bar ∉ b)
    (hd : bar ∉ d) : a ++ bar :: b = c ++ bar :: d ↔ a = c ∧ b = d := by
  rw [append_cons_eq_iff]
  constructor
  · rintro (h | ⟨m, -, rfl⟩ | ⟨m, -, rfl⟩)
    · exact h
    · simp at hb
    · simp at hd
  · exact .inl

namespace FileAssociation

/-- What an association registers, by the ends of the ids. -/
def parts : List String := ["Ext", "ProgId", "Icon", "Command"]

/-- The id of a part of an association. -/
def partId (base part : String) : String := s!"{base}_{part}"

/-- The ids of an association's parts. -/
def idsOn (base : String) : List String := parts.map (partId base)

/-- The ids of an association's items. -/
def ids (component : String) (a : FileAssociation) : List String := idsOn (a.baseId component)

theorem ids_of_items {context : Integration.Context} {component : String} {a : FileAssociation}
    {items : List Item} (h : a.items context component = .ok items) :
    items.map (·.id) = a.ids component := by
  obtain ⟨_, -, h⟩ := bind_eq_ok.mp h
  obtain ⟨_, -, h⟩ := bind_eq_ok.mp h
  cases h
  rfl

/-- No part of an association is the removal of a folder. -/
theorem registry_of_items {context : Integration.Context} {component : String}
    {a : FileAssociation} {items : List Item} (h : a.items context component = .ok items) :
    ∀ i ∈ items, ∃ r, i = .registry r := by
  obtain ⟨_, -, h⟩ := bind_eq_ok.mp h
  obtain ⟨_, -, h⟩ := bind_eq_ok.mp h
  cases h
  simp

theorem toList_partId (base part : String) :
    (partId base part).toList = base.toList ++ '_' :: part.toList := by
  simp [partId, toString]

theorem partId_eq_iff {base base' part part' : String} (hpart : part ∈ parts)
    (hpart' : part' ∈ parts) :
    partId base part = partId base' part' ↔ base = base' ∧ part = part' := by
  have hbar : ∀ part ∈ parts, '_' ∉ part.toList := by decide
  rw [← String.toList_inj, toList_partId, toList_partId,
    append_cons_eq_iff_of_not_mem (hbar part hpart) (hbar part' hpart'), String.toList_inj,
    String.toList_inj]

theorem nodup_idsOn (base : String) : (idsOn base).Nodup := by
  unfold idsOn
  apply List.Nodup.map_on
  · intro part hpart part' hpart' heq
    exact ((partId_eq_iff hpart hpart').mp heq).2
  · decide

/-- Two associations share an id exactly if they share all of them. -/
theorem disjoint_idsOn_iff {base base' : String} :
    (idsOn base).Disjoint (idsOn base') ↔ base ≠ base' := by
  unfold idsOn
  constructor
  · rintro h rfl
    have hmem : partId base "Ext" ∈ parts.map (partId base) := List.mem_map_of_mem (by decide)
    exact h hmem hmem
  · intro h id hid hid'
    obtain ⟨part, hpart, rfl⟩ := List.mem_map.mp hid
    obtain ⟨part', hpart', heq⟩ := List.mem_map.mp hid'
    exact h ((partId_eq_iff hpart' hpart).mp heq).1.symm

/-- Associations have ids of their own exactly if they have bases of their own. -/
theorem nodup_flatMap_idsOn_iff {bases : List String} :
    (bases.flatMap idsOn).Nodup ↔ bases.Nodup := by
  rw [List.nodup_flatMap, List.Nodup]
  constructor
  · rintro ⟨-, hapart⟩
    exact hapart.imp disjoint_idsOn_iff.mp
  · intro hdistinct
    exact ⟨fun base _ => nodup_idsOn base, hdistinct.imp disjoint_idsOn_iff.mpr⟩

theorem toList_baseId (component : String) (a : FileAssociation) :
    (a.baseId component).toList =
      component.toList ++ ("_Assoc_".toList ++ (asId a.bareExtension).toList) := by
  simp [baseId, toString]

/-- In one component the bases are told apart by the extensions, unless these look alike. -/
theorem baseId_eq_iff {component : String} {a b : FileAssociation} :
    a.baseId component = b.baseId component ↔ LooksAlike a.bareExtension b.bareExtension := by
  rw [← String.toList_inj, toList_baseId, toList_baseId, List.append_cancel_left_eq,
    List.append_cancel_left_eq, String.toList_inj, asId_eq_iff]

end FileAssociation

end Installer
