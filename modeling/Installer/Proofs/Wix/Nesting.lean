import Mathlib.Data.List.Nodup
import Mathlib.Logic.Relation
import Installer.Wix.Source

/-!
# Walks into directories and features

A package lists what lies in something and says for each thing what it lies in. A walk makes an
element of each, from the elements of what lies in it, however deep that goes (`Nests`). It comes to
an end exactly if it never comes back to where it was (`exists_nest_iff`), and then nothing lies
deeper than the number of what is listed: the whole walk is the one that is bounded by it
(`nests_iff`). This is said once, of any walk, and then of directories and of features. Main
statements: `root?_eq_some_iff`, `exists_root_iff`.

A bounded walk that ends is a whole walk (`nests_of_nest`). Where no loop is reached, no place comes
twice on a trail, so that no trail is longer than what is listed and the bound is never met
(`exists_nest`).

No order of ids, no distinct ids and no known parents are asked for: a thing may be listed twice, and
what lies in nothing that is listed is never met. How far a walk without an end gets is not said.
-/

set_option autoImplicit false

namespace Installer.Wix
open Xml Relation

/-! ## Loops -/

/-- No place that can be reached from `a` can be reached from itself. -/
def ReachesNoLoop {α : Type} (r : α → α → Prop) (a : α) : Prop :=
  ∀ b, ReflTransGen r a b → ¬ TransGen r b b

section
variable {α : Type} {r : α → α → Prop} {a b : α}

theorem ReachesNoLoop.step (h : ReachesNoLoop r a) (hab : r a b) : ReachesNoLoop r b :=
  fun c hc => h c (.head hab hc)

/-- From where every way comes to an end, none comes back. -/
theorem reachesNoLoop_of_acc (h : Acc (Function.swap r) a) : ReachesNoLoop r a := by
  induction h with
  | intro a _ ih =>
    intro b hab hloop
    rcases hab.cases_head with rfl | ⟨c, hac, hcb⟩
    · obtain ⟨c, hac, hca⟩ := TransGen.head'_iff.mp hloop
      exact ih c hac c .refl (.tail' hca hac)
    · exact ih c hac b hcb hloop

/-- A way that has led to `a`, the last place first, over places of a list and over none twice. -/
structure IsTrail (r : α → α → Prop) (places trail : List α) (a : α) : Prop where
  nodup : trail.Nodup
  known : ∀ b ∈ trail, b ∈ places
  leads : ∀ b ∈ trail, ReflTransGen r b a

/-- Without a loop the next place is a new one. -/
theorem IsTrail.step {places trail : List α} (h : IsTrail r places trail a)
    (hnone : ReachesNoLoop r a) (hab : r a b) (hb : b ∈ places) :
    IsTrail r places (b :: trail) b := by
  have hnew : b ∉ trail := fun hmem => hnone b (.single hab) (.tail' (h.leads b hmem) hab)
  refine ⟨List.nodup_cons.mpr ⟨hnew, h.nodup⟩, ?_, ?_⟩
  · exact List.forall_mem_cons.mpr ⟨hb, h.known⟩
  · exact List.forall_mem_cons.mpr ⟨.refl, fun c hc => (h.leads c hc).tail hab⟩

theorem IsTrail.length_le {places trail : List α} (h : IsTrail r places trail a) :
    trail.length ≤ places.length :=
  h.nodup.length_le_of_subset h.known

end

/-! ## Walks -/

section
variable {α β γ : Type} (inside : α → List β) (key : β → α) (make : β → List γ → γ)

/-- Each thing is made into an element, from the elements of what lies in it. -/
inductive Nests : List β → List γ → Prop
  | nil : Nests [] []
  | cons {x : β} {xs : List β} {inner es : List γ} :
    Nests (inside (key x)) inner → Nests xs es → Nests (x :: xs) (make x inner :: es)

/-- A thing lies in the one place and is itself the other. -/
def Holds (a b : α) : Prop := ∃ x ∈ inside a, key x = b

variable {inside key make}

theorem Nests.unique {xs : List β} {ds es : List γ} (hd : Nests inside key make xs ds)
    (he : Nests inside key make xs es) : ds = es := by
  induction hd generalizing es with
  | nil =>
    cases he
    rfl
  | cons _ _ ihinner ihrest =>
    cases he with
    | cons hinner hrest => rw [ihinner hinner, ihrest hrest]

theorem nests_map {xs : List β} {f : β → List γ}
    (h : ∀ x ∈ xs, Nests inside key make (inside (key x)) (f x)) :
    Nests inside key make xs (xs.map fun x => make x (f x)) := by
  induction xs with
  | nil => exact .nil
  | cons x xs ih =>
    exact .cons (h x List.mem_cons_self) (ih fun y hy => h y (List.mem_cons_of_mem x hy))

/-- A walk that ends has come to an end in everything it went into. -/
theorem Nests.acc {xs : List β} {es : List γ} (h : Nests inside key make xs es) :
    ∀ x ∈ xs, Acc (Function.swap (Holds inside key)) (key x) := by
  induction h with
  | nil => exact fun x hx => absurd hx List.not_mem_nil
  | cons _ _ ihinner ihrest =>
    refine List.forall_mem_cons.mpr ⟨⟨_, ?_⟩, ihrest⟩
    rintro _ ⟨y, hy, rfl⟩
    exact ihinner y hy

theorem Nests.reachesNoLoop {a : α} {es : List γ} (h : Nests inside key make (inside a) es) :
    ReachesNoLoop (Holds inside key) a := by
  refine reachesNoLoop_of_acc ⟨_, ?_⟩
  rintro _ ⟨x, hx, rfl⟩
  exact h.acc x hx

/-- What making an element keeps holds of all that are made. -/
theorem Nests.forall_mem {P : γ → Prop}
    (hmake : ∀ x inner, (∀ e ∈ inner, P e) → P (make x inner)) {xs : List β} {es : List γ}
    (h : Nests inside key make xs es) : ∀ e ∈ es, P e := by
  induction h with
  | nil => exact fun e he => absurd he List.not_mem_nil
  | cons _ _ ihinner ihrest => exact List.forall_mem_cons.mpr ⟨hmake _ _ ihinner, ihrest⟩

/-! ## Bounded walks -/

/-- Bounded walks into all of some things make one walk over them. -/
theorem nests_of_mapM {f : β → Option (List γ)}
    (hf : ∀ x inner, f x = some inner → Nests inside key make (inside (key x)) inner) {xs : List β}
    {es : List γ} (h : xs.mapM (fun x => (f x).map (make x)) = some es) :
    Nests inside key make xs es := by
  induction xs generalizing es with
  | nil =>
    rw [List.mapM_nil] at h
    cases h
    exact .nil
  | cons x xs ih =>
    rw [List.mapM_cons] at h
    obtain ⟨_, hx, h⟩ := Option.bind_eq_some_iff.mp h
    obtain ⟨inner, hinner, rfl⟩ := Option.map_eq_some_iff.mp hx
    obtain ⟨rest, hrest, h⟩ := Option.bind_eq_some_iff.mp h
    cases h
    exact .cons (hf x inner hinner) (ih hrest)

theorem exists_mapM {f : β → Option (List γ)} {xs : List β}
    (h : ∀ x ∈ xs, ∃ inner, f x = some inner) :
    ∃ es, xs.mapM (fun x => (f x).map (make x)) = some es := by
  induction xs with
  | nil => exact ⟨[], rfl⟩
  | cons x xs ih =>
    obtain ⟨⟨inner, hinner⟩, hrest⟩ := List.forall_mem_cons.mp h
    obtain ⟨rest, hrest⟩ := ih hrest
    exact ⟨make x inner :: rest, by rw [List.mapM_cons, hinner, hrest]; rfl⟩

/-- A walk that keeps to its bound is a whole walk. -/
theorem nests_of_nest {depth : Nat} {a : α} {es : List γ}
    (h : nest inside key make depth a = some es) : Nests inside key make (inside a) es := by
  induction depth generalizing a es with
  | zero =>
    rw [nest] at h
    split at h
    · next hempty =>
      cases h
      rw [List.isEmpty_iff.mp hempty]
      exact .nil
    · cases h
  | succ depth ih => exact nests_of_mapM (fun _ _ => ih) h

/-- A walk without a loop keeps to a bound that leaves a step for every place where it has not been
yet. -/
theorem exists_nest {places : List α} (hplaces : ∀ a, ∀ x ∈ inside a, key x ∈ places)
    (depth : Nat) {trail : List α} {a : α} (htrail : IsTrail (Holds inside key) places trail a)
    (hnone : ReachesNoLoop (Holds inside key) a) (hdepth : places.length ≤ trail.length + depth) :
    ∃ es, nest inside key make depth a = some es := by
  have hnext : ∀ x ∈ inside a, IsTrail (Holds inside key) places (key x :: trail) (key x) :=
    fun x hx => htrail.step hnone ⟨x, hx, rfl⟩ (hplaces a x hx)
  induction depth generalizing trail a with
  | zero =>
    have hempty : inside a = [] := by
      rw [List.eq_nil_iff_forall_not_mem]
      intro x hx
      have hlength := (hnext x hx).length_le
      rw [List.length_cons] at hlength
      omega
    exact ⟨[], by rw [nest, hempty]; rfl⟩
  | succ depth ih =>
    refine exists_mapM fun x hx => ?_
    have hnone' := hnone.step ⟨x, hx, rfl⟩
    refine ih (hnext x hx) hnone' ?_ ?_
    · rw [List.length_cons]
      omega
    · exact fun y hy => (hnext x hx).step hnone' ⟨y, hy, rfl⟩ (hplaces (key x) y hy)

section
variable (make) {places : List α} (hplaces : ∀ a, ∀ x ∈ inside a, key x ∈ places) {a : α}

include hplaces

/-- A walk ends exactly if it reaches no loop. -/
theorem exists_nest_iff : (∃ es, nest inside key make places.length a = some es) ↔
    ReachesNoLoop (Holds inside key) a := by
  constructor
  · rintro ⟨es, h⟩
    exact (nests_of_nest h).reachesNoLoop
  · exact fun hnone => exists_nest hplaces places.length ⟨List.nodup_nil, by simp, by simp⟩ hnone
      (Nat.le_add_left _ _)

/-- The whole walk is the one that goes no deeper than there are places. -/
theorem nests_iff {es : List γ} :
    Nests inside key make (inside a) es ↔ nest inside key make places.length a = some es := by
  refine ⟨fun h => ?_, nests_of_nest⟩
  obtain ⟨ds, hds⟩ := (exists_nest_iff make hplaces).mpr h.reachesNoLoop
  rw [hds, (nests_of_nest hds).unique h]

/-- In a walk that ends the elements in an element are those of what lies in it. -/
theorem nest_eq_map (hnone : ReachesNoLoop (Holds inside key) a) :
    nest inside key make places.length a = some ((inside a).map fun x =>
      make x ((nest inside key make places.length (key x)).getD [])) := by
  refine (nests_iff make hplaces).mp (nests_map fun x hx => ?_)
  obtain ⟨inner, hinner⟩ :=
    (exists_nest_iff make hplaces).mpr (hnone.step ⟨x, hx, rfl⟩)
  rw [hinner, Option.getD_some]
  exact nests_of_nest hinner

end

/-! ## What a walk comes to -/

/-- What is read off every element, from what is read off the elements in it, is a walk as well. -/
theorem Nests.map {δ : Type} {read : β → List δ → δ} {f : γ → δ}
    (hf : ∀ x inner, f (make x inner) = read x (inner.map f)) {xs : List β} {es : List γ}
    (h : Nests inside key make xs es) : Nests inside key read xs (es.map f) := by
  induction h with
  | nil => exact .nil
  | cons _ _ ihinner ihrest =>
    rw [List.map_cons, hf]
    exact .cons ihinner ihrest

/-- The place that a thing is, and before all others those in it. -/
def gather (key : β → α) (x : β) (inner : List (List α)) : List α := key x :: inner.flatten

/-- What can be reached from a place is the place, or is reached from something in it. -/
theorem reach_iff {a c : α} : ReflTransGen (Holds inside key) a c ↔
    c = a ∨ ∃ x ∈ inside a, ReflTransGen (Holds inside key) (key x) c := by
  rw [ReflTransGen.cases_head_iff, eq_comm]
  refine or_congr_right ⟨?_, ?_⟩
  · rintro ⟨_, ⟨x, hx, rfl⟩, hxc⟩
    exact ⟨x, hx, hxc⟩
  · rintro ⟨x, hx, hxc⟩
    exact ⟨_, ⟨x, hx, rfl⟩, hxc⟩

/-- A walk comes to the places that can be reached. -/
theorem mem_flatten_iff {xs : List β} {met : List (List α)}
    (h : Nests inside key (gather key) xs met) {c : α} :
    c ∈ met.flatten ↔ ∃ x ∈ xs, ReflTransGen (Holds inside key) (key x) c := by
  induction h with
  | nil => simp
  | cons _ _ ihinner ihrest =>
    rw [List.flatten_cons, List.mem_append, gather, List.mem_cons, ihinner, ihrest,
      List.exists_mem_cons_iff, reach_iff]

theorem mem_cons_flatten_iff {a : α} {met : List (List α)}
    (h : Nests inside key (gather key) (inside a) met) {c : α} :
    c ∈ a :: met.flatten ↔ ReflTransGen (Holds inside key) a c := by
  rw [List.mem_cons, mem_flatten_iff h, reach_iff]

/-- Without a loop a walk does not come back to where it starts. -/
theorem not_mem_flatten {a : α} {met : List (List α)}
    (h : Nests inside key (gather key) (inside a) met) (hnone : ReachesNoLoop (Holds inside key) a) :
    a ∉ met.flatten := by
  intro hmem
  obtain ⟨x, hx, hxa⟩ := (mem_flatten_iff h).mp hmem
  exact hnone a .refl (.head' ⟨x, hx, rfl⟩ hxa)

/-- Where everything lies in one place only, two things beside each other hold nothing in common. -/
theorem eq_of_reach_common {a c : α} {x y : β} (hone : ∀ {a b c}, Holds inside key a c →
      Holds inside key b c → a = b) (hnone : ReachesNoLoop (Holds inside key) a)
    (hx : x ∈ inside a) (hy : y ∈ inside a) (hxc : ReflTransGen (Holds inside key) (key x) c)
    (hyc : ReflTransGen (Holds inside key) (key y) c) : key x = key y := by
  -- the one of them that is above the other is reached from the place around both, and so itself
  have habove : ∀ {x y : β}, x ∈ inside a → y ∈ inside a →
      ReflTransGen (Holds inside key) (key x) (key y) → key x = key y := by
    intro x y hx hy hxy
    rcases hxy.cases_tail with heq | ⟨b, hxb, hby⟩
    · exact heq.symm
    · rw [hone hby ⟨y, hy, rfl⟩] at hxb
      exact absurd (TransGen.head' ⟨x, hx, rfl⟩ hxb) (hnone a .refl)
  have hback : Relator.RightUnique (Function.swap (Holds inside key)) :=
    fun _ _ _ hb hc => hone hb hc
  rcases ReflTransGen.total_of_right_unique hback (reflTransGen_swap.mpr hxc)
    (reflTransGen_swap.mpr hyc) with h | h
  · exact (habove hy hx (reflTransGen_swap.mp h)).symm
  · exact habove hx hy (reflTransGen_swap.mp h)

/-- Where everything lies in one place only, and there once, a walk comes to no place twice. -/
theorem nodup_flatten {a : α} {xs : List β} {met : List (List α)}
    (h : Nests inside key (gather key) xs met) (hone : ∀ {a b c}, Holds inside key a c →
      Holds inside key b c → a = b) (honce : ∀ a, ((inside a).map key).Nodup)
    (hnone : ReachesNoLoop (Holds inside key) a) (hxs : xs ⊆ inside a) (hnodup : (xs.map key).Nodup) :
    met.flatten.Nodup := by
  induction h generalizing a with
  | nil => exact List.nodup_nil
  | @cons x xs inner met hinner hrest ihinner ihrest =>
    obtain ⟨hx, hxs⟩ := List.cons_subset.mp hxs
    obtain ⟨hnew, hnodup⟩ := List.nodup_cons.mp hnodup
    have hstep := hnone.step ⟨x, hx, rfl⟩
    rw [List.flatten_cons]
    refine List.nodup_append.mpr ⟨List.nodup_cons.mpr ⟨not_mem_flatten hinner hstep, ?_⟩,
      ihrest hnone hxs hnodup, ?_⟩
    · exact ihinner hstep (List.Subset.refl _) (honce (key x))
    · rintro c hc _ hc' rfl
      obtain ⟨y, hy, hyc⟩ := (mem_flatten_iff hrest).mp hc'
      have hxc := (mem_cons_flatten_iff hinner).mp hc
      exact hnew (eq_of_reach_common hone hnone hx (hxs hy) hxc hyc ▸ List.mem_map_of_mem hy)

end

/-! ## Directories -/

/-- The one directory is the parent of the other; the root is the parent of those that name none. -/
def IsParent (all : List Package.Directory) (parent id : String) : Prop :=
  ∃ d ∈ all, d.parent.getD rootId = parent ∧ d.id = id

theorem holds_directoriesIn (all : List Package.Directory) :
    Holds (directoriesIn all) (·.id) = IsParent all := by
  funext parent id
  simp only [Holds, IsParent, directoriesIn, List.mem_filter, decide_eq_true_eq, and_assoc]

theorem id_mem_of_mem_directoriesIn (all : List Package.Directory) (parent : String) :
    ∀ d ∈ directoriesIn all parent, d.id ∈ all.map (·.id) :=
  fun _ hd => List.mem_map_of_mem (List.mem_of_mem_filter hd)

/-- What there is of directories is the walk over them, to its end. -/
theorem nests_directories_iff {all : List Package.Directory} {es : List Element} :
    Nests (directoriesIn all) (·.id) directoryElement (directoriesIn all rootId) es ↔
      directories? all = some es := by
  rw [nests_iff _ (id_mem_of_mem_directoriesIn all), List.length_map, directories?]

/-- That walk ends exactly if the parents lead from the root into no loop. -/
theorem exists_directories_iff {all : List Package.Directory} :
    (∃ es, directories? all = some es) ↔ ReachesNoLoop (IsParent all) rootId := by
  rw [← holds_directoriesIn, ← exists_nest_iff directoryElement (id_mem_of_mem_directoriesIn all),
    List.length_map]
  rfl

/-! ## Features -/

/-- The one feature is the parent of the other; none is the parent of those that name none. -/
def IsParentFeature (all : List Package.Feature) (parent id : Option String) : Prop :=
  ∃ f ∈ all, f.parent = parent ∧ some f.id = id

theorem holds_featuresIn (all : List Package.Feature) :
    Holds (featuresIn all) (fun f => some f.id) = IsParentFeature all := by
  funext parent id
  simp only [Holds, IsParentFeature, featuresIn, List.mem_filter, decide_eq_true_eq, and_assoc]

theorem id_mem_of_mem_featuresIn (all : List Package.Feature) (parent : Option String) :
    ∀ f ∈ featuresIn all parent, some f.id ∈ all.map fun f => some f.id :=
  fun _ hf => List.mem_map_of_mem (List.mem_of_mem_filter hf)

/-- What there is of features is the walk over them, to its end. -/
theorem nests_features_iff {all : List Package.Feature} {es : List Element} :
    Nests (featuresIn all) (fun f => some f.id) featureElement (featuresIn all none) es ↔
      features? all = some es := by
  rw [nests_iff _ (id_mem_of_mem_featuresIn all), List.length_map, features?]

/-- That walk ends exactly if the parents of features lead into no loop. -/
theorem exists_features_iff {all : List Package.Feature} :
    (∃ es, features? all = some es) ↔ ReachesNoLoop (IsParentFeature all) none := by
  rw [← holds_featuresIn, ← exists_nest_iff featureElement (id_mem_of_mem_featuresIn all),
    List.length_map]
  rfl

/-! ## Packages -/

section
variable {p : Package} {directories features : List Element}

/-- What the walks over a package made of its directories and of its features. -/
structure AreNested (p : Package) (directories features : List Element) : Prop where
  directories : directories? p.directories = some directories
  features : features? p.features = some features

theorem root?_eq_some_iff {e : Element} : root? p = some e ↔
    ∃ directories features, AreNested p directories features ∧ e = root p directories features := by
  constructor
  · intro h
    obtain ⟨directories, hdirectories, h⟩ := Option.bind_eq_some_iff.mp h
    obtain ⟨features, hfeatures, h⟩ := Option.bind_eq_some_iff.mp h
    cases h
    exact ⟨directories, features, ⟨hdirectories, hfeatures⟩, rfl⟩
  · rintro ⟨directories, features, h, rfl⟩
    rw [root?, h.directories, h.features]
    rfl

theorem AreNested.root?_eq (h : AreNested p directories features) :
    root? p = some (root p directories features) :=
  root?_eq_some_iff.mpr ⟨_, _, h, rfl⟩

/-- A package has a root element exactly if neither its directories nor its features lead into a
loop. -/
theorem exists_root_iff : (∃ e, root? p = some e) ↔
    ReachesNoLoop (IsParent p.directories) rootId ∧
      ReachesNoLoop (IsParentFeature p.features) none := by
  rw [← exists_directories_iff, ← exists_features_iff]
  constructor
  · rintro ⟨e, h⟩
    obtain ⟨directories, features, h, -⟩ := root?_eq_some_iff.mp h
    exact ⟨⟨directories, h.directories⟩, ⟨features, h.features⟩⟩
  · rintro ⟨⟨directories, hdirectories⟩, ⟨features, hfeatures⟩⟩
    exact ⟨_, AreNested.root?_eq ⟨hdirectories, hfeatures⟩⟩

end

end Installer.Wix
