import Installer.Component.Graph
import Installer.Proofs.Component.Resolution
import Installer.Proofs.Feature.Forest

/-!
# The components and features of a manifest, in order

Components are resolved one by one, and the ids of components, and of items across all components,
are new (`resolveAll_eq_ok_iff`). A graph is made exactly if, besides, the features are listed, every
component has a feature and no directory is left unused (`make_eq_ok_iff`).

**What it does not establish.** Which rule is reported where no graph is made is not settled here; for
directories that nothing uses it is in the module on their use.
-/

set_option autoImplicit false

namespace Installer.ComponentGraph
open Result

/-- The ids of the items of all components. -/
def itemIds (components : List Package.Component) : List String :=
  components.flatMap fun c => c.items.map (·.id)

section Components
variable {context : Component.Context} {earlier taken : List String}

/-- A component is resolved before the rest, and its ids are taken for the rest. -/
theorem resolveAll_cons_eq_ok_iff {c : Manifest.Component} {cs : List Manifest.Component}
    {resolved : List Package.Component} :
    resolveAll context earlier taken (c :: cs) = .ok resolved ↔
      ∃ r rs, resolved = r :: rs ∧ c.id ∉ earlier ∧ Component.Resolves context c r ∧
        Distinct.firstTaken? taken (r.items.map (·.id)) = none ∧
          resolveAll context (c.id :: earlier) (r.items.map (·.id) ++ taken) cs = .ok rs := by
  rw [resolveAll]
  by_cases hid : c.id ∈ earlier
  · simp [hid]
  · simp only [List.contains_eq_mem, hid, decide_false, Bool.false_eq_true, ↓reduceIte,
      not_false_eq_true, true_and]
    rw [bind_eq_ok]
    constructor
    · rintro ⟨r, hr, h⟩
      split at h
      · cases h
      · next hfree =>
        obtain ⟨rs, hrs, hdone⟩ := bind_eq_ok.mp h
        cases hdone
        exact ⟨r, rs, rfl, Component.resolve_eq_ok_iff.mp hr, hfree, hrs⟩
    · rintro ⟨r, rs, rfl, hr, hfree, hrs⟩
      refine ⟨r, Component.resolve_eq_ok_iff.mpr hr, ?_⟩
      rw [hfree, hrs]
      rfl

theorem resolveAll_eq_ok_iff {cs : List Manifest.Component} {rs : List Package.Component} :
    resolveAll context earlier taken cs = .ok rs ↔
      List.Forall₂ (Component.Resolves context) cs rs ∧
        Distinct.firstTaken? earlier (cs.map (·.id)) = none ∧
          Distinct.firstTaken? taken (itemIds rs) = none := by
  induction cs generalizing rs earlier taken with
  | nil =>
    rw [resolveAll, List.forall₂_nil_left_iff]
    constructor
    · rintro ⟨⟩
      exact ⟨rfl, rfl, rfl⟩
    · rintro ⟨rfl, -⟩
      rfl
  | cons c cs ih =>
    rw [resolveAll_cons_eq_ok_iff, List.map_cons, Distinct.firstTaken?]
    constructor
    · rintro ⟨r, rs, rfl, hid, hr, hitems, hrs⟩
      obtain ⟨hall, hids, hmore⟩ := ih.mp hrs
      exact ⟨.cons hr hall, by simpa [hid] using hids,
        Distinct.firstTaken?_append_eq_none_iff.mpr ⟨hitems, hmore⟩⟩
    · rintro ⟨hall, hids, htaken⟩
      cases hall with
      | @cons _ r _ rs hr hall =>
        obtain ⟨hitems, hmore⟩ := Distinct.firstTaken?_append_eq_none_iff.mp htaken
        by_cases hid : c.id ∈ earlier
        · simp [hid] at hids
        · exact ⟨r, rs, rfl, hid, hr, hitems, ih.mpr ⟨hall, by simpa [hid] using hids, hmore⟩⟩

end Components

/-- Components and features that pass their checks make a graph unless a directory is unused. -/
theorem make_of_checked {context : Component.Context} {m : Manifest}
    {components : List Package.Component} {features : List Package.Feature}
    (hresolved : resolveAll context [] [] m.components = .ok components)
    (hfeatures : Feature.list m.product.installLevel (components.map (·.id)) m.features =
      .ok features)
    (hnamed : ∀ c ∈ components, c.id ∈ Feature.named features) :
    make context m = (unused? context.directories components m.directories).elim
      (.ok ⟨components, features⟩) fun d => .error (.unusedDirectory d.id) := by
  have horphan : (components.find? fun c => !(Feature.named features).contains c.id) = none := by
    refine List.find?_eq_none.mpr fun c hc => ?_
    simpa using hnamed c hc
  rw [make, hresolved, ok_bind, hfeatures, ok_bind, horphan]
  cases unused? context.directories components m.directories <;> rfl

/-- A graph is made of the resolved components and the listed features. -/
theorem make_eq_ok_iff {context : Component.Context} {m : Manifest} {g : ComponentGraph} :
    make context m = .ok g ↔
      resolveAll context [] [] m.components = .ok g.components ∧
        Feature.list m.product.installLevel (g.components.map (·.id)) m.features =
          .ok g.features ∧
            (∀ c ∈ g.components, c.id ∈ Feature.named g.features) ∧
              unused? context.directories g.components m.directories = none := by
  constructor
  · intro h
    rw [make] at h
    obtain ⟨components, hcomponents, h⟩ := bind_eq_ok.mp h
    obtain ⟨features, hfeatures, h⟩ := bind_eq_ok.mp h
    dsimp only at h
    split at h
    · cases h
    · next horphan =>
      split at h
      · cases h
      · next hunused =>
        cases h
        refine ⟨hcomponents, hfeatures, fun c hc => ?_, hunused⟩
        simpa using List.find?_eq_none.mp horphan c hc
  · rintro ⟨hcomponents, hfeatures, hnamed, hunused⟩
    rw [make_of_checked hcomponents hfeatures hnamed, hunused]
    rfl

end Installer.ComponentGraph
