/-!
# Texts by name

A dictionary keeps its texts in the order of their names and has at most one for a name, so two
dictionaries with the same texts under the same names are equal. What is put in under a name that is
there takes the place of what was.
-/

set_option autoImplicit false

namespace Installer

/-- Texts by name. -/
structure Dictionary where
  entries : List (String × String)
  ascending : entries.Pairwise (fun a b => a.1 < b.1)

namespace Dictionary

@[ext] theorem ext {d e : Dictionary} (h : d.entries = e.entries) : d = e := by
  cases d
  cases e
  simp only at h
  subst h
  rfl

instance : DecidableEq Dictionary := fun d e =>
  if h : d.entries = e.entries then isTrue (Dictionary.ext h)
  else isFalse fun he => h (by rw [he])

instance : Repr Dictionary := ⟨fun d n => reprPrec d.entries n⟩

def empty : Dictionary := ⟨[], .nil⟩

instance : Inhabited Dictionary := ⟨empty⟩

def isEmpty (d : Dictionary) : Bool := d.entries.isEmpty

def names (d : Dictionary) : List String := d.entries.map (·.1)

/-- The text under a name. -/
def get? (d : Dictionary) (name : String) : Option String := d.entries.lookup name

/-- The entries with `text` under `name`, in place of the text that was there. -/
def put (name text : String) : List (String × String) → List (String × String)
  | [] => [(name, text)]
  | e :: rest =>
    if name < e.1 then (name, text) :: e :: rest
    else if name = e.1 then (name, text) :: rest
    else e :: put name text rest

theorem mem_put {name text : String} {x : String × String} :
    ∀ {es : List (String × String)}, x ∈ put name text es → x = (name, text) ∨ x ∈ es
  | [], h => by
    simp only [put, List.mem_singleton] at h
    exact .inl h
  | e :: rest, h => by
    simp only [put] at h
    split at h
    · exact List.mem_cons.mp h
    · split at h
      · rcases List.mem_cons.mp h with h | h
        · exact .inl h
        · exact .inr (List.mem_cons_of_mem _ h)
      · rcases List.mem_cons.mp h with h | h
        · exact .inr (h ▸ List.mem_cons_self)
        · rcases mem_put h with h | h
          · exact .inl h
          · exact .inr (List.mem_cons_of_mem _ h)

theorem put_ascending (name text : String) :
    ∀ {es : List (String × String)}, es.Pairwise (fun a b => a.1 < b.1) →
      (put name text es).Pairwise (fun a b => a.1 < b.1)
  | [], _ => List.pairwise_singleton _ _
  | e :: rest, h => by
    obtain ⟨hhead, htail⟩ := List.pairwise_cons.mp h
    simp only [put]
    split
    · next hlt =>
      refine List.pairwise_cons.mpr ⟨fun x hx => ?_, h⟩
      rcases List.mem_cons.mp hx with rfl | hx
      · exact hlt
      · exact String.lt_trans hlt (hhead x hx)
    · next hnlt =>
      split
      · next heq => exact List.pairwise_cons.mpr ⟨fun x hx => heq ▸ hhead x hx, htail⟩
      · next hne =>
        refine List.pairwise_cons.mpr ⟨fun x hx => ?_, put_ascending name text htail⟩
        rcases mem_put hx with rfl | hx
        · exact Std.lt_of_le_of_ne (String.not_lt.mp hnlt) (Ne.symm hne)
        · exact hhead x hx

/-- The dictionary with `text` under `name`. -/
def insert (d : Dictionary) (name text : String) : Dictionary :=
  ⟨put name text d.entries, put_ascending name text d.ascending⟩

/-- The dictionary of entries; of several under one name the last counts. -/
def ofList (entries : List (String × String)) : Dictionary :=
  entries.foldl (fun d e => d.insert e.1 e.2) empty

/-- The same names with their texts changed, in the order of the names, or the first failure. -/
def mapM {ε : Type} (f : String → Except ε String) (d : Dictionary) : Except ε Dictionary := do
  let texts ← d.entries.mapM fun e => do return (e.1, ← f e.2)
  return ofList texts

end Dictionary
end Installer
