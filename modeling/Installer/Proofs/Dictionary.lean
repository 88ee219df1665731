import Installer.Dictionary
import Installer.Proofs.Json.Lawful

/-!
# The names in a dictionary

No name is there twice, a text is found under each (`isSome_get?_iff`), and changing the texts leaves
the names (`names_of_mapM`).
-/

set_option autoImplicit false

namespace Installer.Dictionary
open Result

theorem nodup_names (d : Dictionary) : d.names.Nodup := by
  refine List.pairwise_map.mpr (d.ascending.imp fun {a b} hlt heq => ?_)
  rw [heq] at hlt
  exact String.lt_irrefl _ hlt

theorem mem_names_put {name text other : String} {es : List (String × String)} :
    other ∈ (put name text es).map (·.1) ↔ other = name ∨ other ∈ es.map (·.1) := by
  induction es with
  | nil => simp [put]
  | cons e rest ih =>
    rw [put]
    split
    · simp
    · split
      · next heq => simp [heq]
      · simp only [List.map_cons, List.mem_cons, ih, or_left_comm]

theorem mem_names_ofList {name : String} {es : List (String × String)} :
    name ∈ (ofList es).names ↔ name ∈ es.map (·.1) := by
  have hfold : ∀ d : Dictionary, name ∈ (es.foldl (fun d e => d.insert e.1 e.2) d).names ↔
      name ∈ es.map (·.1) ∨ name ∈ d.names := by
    induction es with
    | nil => simp
    | cons e rest ih =>
      intro d
      rw [List.foldl_cons, ih, names, insert, mem_names_put, List.map_cons, List.mem_cons, names,
        or_left_comm, or_assoc]
  rw [ofList, hfold]
  simp [empty, names]

/-- There is a text under every name. -/
theorem isSome_get?_iff {d : Dictionary} {name : String} :
    (d.get? name).isSome ↔ name ∈ d.names := by
  rw [get?, names]
  induction d.entries with
  | nil => simp
  | cons e rest ih =>
    rw [List.lookup_cons, List.map_cons, List.mem_cons, ← ih]
    by_cases heq : name = e.1
    · simp [heq]
    · rw [beq_eq_false_iff_ne.mpr heq]
      simp [heq]

section Texts
variable {ε : Type} {f : String → Except ε String}

theorem names_of_entries {entries entries' : List (String × String)}
    (h : (entries.mapM fun e => do return (e.1, ← f e.2)) = .ok entries') :
    entries'.map (·.1) = entries.map (·.1) :=
  map_eq_map_of_related (mapM_eq_ok.mp h) fun e e' he => by
    obtain ⟨text, -, hdone⟩ := bind_eq_ok.mp he
    cases hdone
    rfl

/-- Changing the texts changes the entries one by one. -/
theorem entries_mapM (d : Dictionary) :
    (d.mapM f).map entries = d.entries.mapM fun e => do return (e.1, ← f e.2) := by
  rw [mapM]
  cases hes : d.entries.mapM fun e => do return (e.1, ← f e.2) with
  | error e => rfl
  | ok es =>
    have hascending : es.Pairwise fun a b => a.1 < b.1 := by
      rw [← List.pairwise_map (f := Prod.fst) (R := (· < ·)), names_of_entries hes]
      exact List.pairwise_map.mpr d.ascending
    exact congrArg Except.ok (Json.Codec.entries_ofList hascending)

theorem names_of_mapM {d d' : Dictionary} (h : d.mapM f = .ok d') : d'.names = d.names := by
  have hentries := d.entries_mapM (f := f)
  rw [h] at hentries
  exact names_of_entries hentries.symm

end Texts

end Installer.Dictionary
