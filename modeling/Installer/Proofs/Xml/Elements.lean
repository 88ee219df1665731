import Installer.Xml.Element

/-!
# The elements in an element

A tree of elements is looked at from outside: the tag, the attributes and the children of an element,
and all elements of a name in it, however deep (`called`). What an element is made of tells which
names it has none of (`IsMadeOf.called_eq_nil`).
-/

set_option autoImplicit false

namespace Installer.Xml.Element

/-- The name of the tag. -/
def tag : Element → String
  | .leaf name _ => name
  | .text name _ _ => name
  | .node name _ _ => name

def attributes : Element → List Attribute
  | .leaf _ attributes => attributes
  | .text _ attributes _ => attributes
  | .node _ attributes _ => attributes

/-- The elements directly in an element. -/
def children : Element → List Element
  | .leaf _ _ => []
  | .text _ _ _ => []
  | .node _ _ children => children

/-- The text in an element, if it has one and no elements. -/
def content? : Element → Option String
  | .leaf _ _ => none
  | .text _ _ content => some content
  | .node _ _ _ => none

/-- The value of the attribute `Id`. -/
def id? (e : Element) : Option String := e.attributes.lookup "Id"

mutual
/-- An element and all elements in it, each before those in it. -/
def all : Element → List Element
  | .leaf name attributes => [.leaf name attributes]
  | .text name attributes content => [.text name attributes content]
  | .node name attributes children => .node name attributes children :: allIn children
/-- Several elements and all in them, in their order. -/
def allIn : List Element → List Element
  | [] => []
  | e :: rest => all e ++ allIn rest
end

theorem allIn_eq (es : List Element) : allIn es = es.flatMap all := by
  induction es with
  | nil => rfl
  | cons e rest ih => rw [allIn, ih, List.flatMap_cons]

theorem all_eq (e : Element) : e.all = e :: e.children.flatMap all := by
  cases e with
  | leaf => rfl
  | text => rfl
  | node => rw [all, allIn_eq, children]

theorem mem_all_self (e : Element) : e ∈ e.all := by
  rw [all_eq]
  exact List.mem_cons_self

/-- The elements of a name: an element, if it has that name, and those in it. -/
def called (name : String) (e : Element) : List Element := e.all.filter (·.tag = name)

/-- The elements of a name in several elements. -/
theorem flatMap_called (name : String) (es : List Element) :
    es.flatMap (called name) = (es.flatMap all).filter (·.tag = name) :=
  List.filter_flatMap.symm

theorem called_of_tag_eq {name : String} {e : Element} (h : e.tag = name) :
    e.called name = e :: e.children.flatMap (called name) := by
  rw [called, all_eq, List.filter_cons_of_pos (by simpa using h), flatMap_called]

theorem called_of_tag_ne {name : String} {e : Element} (h : e.tag ≠ name) :
    e.called name = e.children.flatMap (called name) := by
  rw [called, all_eq, List.filter_cons_of_neg (by simpa using h), flatMap_called]

theorem called_node (name : String) (attributes : List Attribute) (children : List Element) :
    (node name attributes children).called name =
      node name attributes children :: children.flatMap (called name) :=
  called_of_tag_eq rfl

theorem called_leaf (name : String) (attributes : List Attribute) :
    (leaf name attributes).called name = [leaf name attributes] :=
  called_of_tag_eq rfl

/-- Several elements in which there are no others of that name. -/
theorem flatMap_called_eq_self {name : String} {es : List Element}
    (h : ∀ e ∈ es, e.called name = [e]) : es.flatMap (called name) = es := by
  induction es with
  | nil => rfl
  | cons e rest ih =>
    obtain ⟨he, hrest⟩ := List.forall_mem_cons.mp h
    rw [List.flatMap_cons, he, ih hrest, List.singleton_append]

theorem mem_called_self {name : String} {e : Element} (h : e.tag = name) : e ∈ e.called name := by
  rw [called_of_tag_eq h]
  exact List.mem_cons_self

mutual
/-- What is in an element that is in another is in the other. -/
theorem all_subset : ∀ {e x : Element}, x ∈ e.all → x.all ⊆ e.all
  | .leaf _ _, _, h => by
    rw [all, List.mem_singleton] at h
    rw [h]
    exact fun _ => id
  | .text _ _ _, _, h => by
    rw [all, List.mem_singleton] at h
    rw [h]
    exact fun _ => id
  | .node _ _ children, x, h => by
    rw [all] at h
    rcases List.mem_cons.mp h with rfl | h
    · exact fun _ => id
    · rw [all]
      exact List.Subset.trans (allIn_subset h) (List.subset_cons_self _ _)
theorem allIn_subset : ∀ {es : List Element} {x : Element}, x ∈ allIn es → x.all ⊆ allIn es
  | [], _, h => absurd h List.not_mem_nil
  | _ :: _, _, h => by
    rw [allIn] at h ⊢
    rcases List.mem_append.mp h with h | h
    · exact List.Subset.trans (all_subset h) (List.subset_append_left _ _)
    · exact List.Subset.trans (allIn_subset h) (List.subset_append_right _ _)
end

/-- The children of that name of an element in another are in the other. -/
theorem mem_called_of_child {name : String} {e x y : Element} (hx : x ∈ e.all)
    (hy : y ∈ x.children) (hname : y.tag = name) : y ∈ e.called name := by
  refine List.mem_filter.mpr ⟨all_subset hx ?_, by simpa using hname⟩
  rw [all_eq]
  exact List.mem_cons_of_mem x (List.mem_flatMap.mpr ⟨y, hy, mem_all_self y⟩)

/-! ## Ids -/

/-- The elements of a name that have an id. -/
def withId (name id : String) (e : Element) : List Element :=
  (e.called name).filter (·.id? = some id)

/-- Where no id is taken twice, an element is the only one with its id. -/
theorem filter_id?_eq {es : List Element} (h : (es.filterMap id?).Nodup) {e : Element} (he : e ∈ es)
    {id : String} (hid : e.id? = some id) : es.filter (·.id? = some id) = [e] := by
  induction es with
  | nil => exact absurd he List.not_mem_nil
  | cons x rest ih =>
    rcases List.mem_cons.mp he with rfl | hrest
    · rw [List.filterMap_cons_some hid] at h
      rw [List.filter_cons_of_pos (by simpa using hid)]
      have hnone : rest.filter (·.id? = some id) = [] :=
        List.filter_eq_nil_iff.mpr fun y hy => by
          simpa using fun heq : y.id? = some id =>
            (List.nodup_cons.mp h).1 (List.mem_filterMap.mpr ⟨y, hy, heq⟩)
      rw [hnone]
    · have hlisted : id ∈ rest.filterMap id? := List.mem_filterMap.mpr ⟨e, hrest, hid⟩
      cases hx : x.id? with
      | none =>
        rw [List.filterMap_cons_none hx] at h
        rw [List.filter_cons_of_neg (by simp [hx]), ih h hrest]
      | some other =>
        rw [List.filterMap_cons_some hx] at h
        obtain ⟨hnew, hnodup⟩ := List.nodup_cons.mp h
        have hother : other ≠ id := fun heq => hnew (heq ▸ hlisted)
        rw [List.filter_cons_of_neg (by simpa [hx] using hother), ih hnodup hrest]

/-! ## What elements are made of -/

/-- The element and all elements in it have names among `names`. -/
def IsMadeOf (names : List String) (e : Element) : Prop := ∀ x ∈ e.all, x.tag ∈ names

variable {names : List String}

theorem isMadeOf_iff {e : Element} :
    e.IsMadeOf names ↔ e.tag ∈ names ∧ ∀ x ∈ e.children, x.IsMadeOf names := by
  rw [IsMadeOf, all_eq, List.forall_mem_cons, List.forall_mem_flatMap]
  rfl

theorem isMadeOf_leaf {name : String} {attributes : List Attribute} (h : name ∈ names) :
    (leaf name attributes).IsMadeOf names :=
  isMadeOf_iff.mpr ⟨h, fun _ hx => absurd hx List.not_mem_nil⟩

theorem isMadeOf_text {name : String} {attributes : List Attribute} {content : String}
    (h : name ∈ names) : (text name attributes content).IsMadeOf names :=
  isMadeOf_iff.mpr ⟨h, fun _ hx => absurd hx List.not_mem_nil⟩

/-- There is no element of a name that nothing is made of. -/
theorem IsMadeOf.called_eq_nil {e : Element} (h : e.IsMadeOf names) {name : String}
    (hname : name ∉ names) : e.called name = [] :=
  List.filter_eq_nil_iff.mpr fun x hx => by simpa using fun heq : x.tag = name => hname (heq ▸ h x hx)

theorem flatMap_called_eq_nil {es : List Element} (h : ∀ e ∈ es, e.IsMadeOf names) {name : String}
    (hname : name ∉ names) : es.flatMap (called name) = [] :=
  List.flatMap_eq_nil_iff.mpr fun e he => (h e he).called_eq_nil hname

end Installer.Xml.Element
