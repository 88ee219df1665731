import Installer.Text.Decimal
import Installer.Xml.Element

/-!
# Reading a document back

The reader takes the XML in which the five characters with a meaning of their own stand for that
meaning only: a `<` begins a tag, a `>` ends it, quotes stand around the values of attributes, and
an ampersand begins an entity. What it accepts is XML, and means the same there. It follows the tags
with the elements that are open around it (`Reading`), and takes a tag that closes an element only
for the innermost of them; white space is no text, except in the elements that hold one.
Main statement: `readDocument_document`.

What an element writes puts it into the innermost open element, whatever is around that (`IsRead`).
This is shown by induction on the element, from what each of its tags does to the reader; a document
is one such run.

**What it does not establish.** The reader is no XML reader: it refuses comments, character references
and whatever else the writer never writes. It is here to show that nothing is lost in writing.
-/

set_option autoImplicit false

namespace Installer.Xml

/-! ## Names and entities -/

def isNameStart (c : Char) : Bool := c.isAlpha || c == '_' || c == ':'

def isNameChar (c : Char) : Bool := isNameStart c || c.isDigit || c == '-' || c == '.'

/-- The characters are a name. -/
def IsName (cs : List Char) : Prop := cs.head?.any isNameStart = true ∧ cs.all isNameChar = true

instance (cs : List Char) : Decidable (IsName cs) := inferInstanceAs (Decidable (_ ∧ _))

/-- The characters that stand for themselves only as entities. -/
def reserved : List Char := ['<', '>', '&', '\'', '"']

/-- The text that characters stand for; none if a reserved character stands in them. -/
def unescape : List Char → Option (List Char)
  | [] => some []
  | '&' :: 'l' :: 't' :: ';' :: rest => (unescape rest).map ('<' :: ·)
  | '&' :: 'g' :: 't' :: ';' :: rest => (unescape rest).map ('>' :: ·)
  | '&' :: 'a' :: 'm' :: 'p' :: ';' :: rest => (unescape rest).map ('&' :: ·)
  | '&' :: 'a' :: 'p' :: 'o' :: 's' :: ';' :: rest => (unescape rest).map ('\'' :: ·)
  | '&' :: 'q' :: 'u' :: 'o' :: 't' :: ';' :: rest => (unescape rest).map ('"' :: ·)
  | c :: rest => if c ∈ reserved then none else (unescape rest).map (c :: ·)

/-! ## Tags -/

/-- A tag. -/
inductive Tag
  | opening (name : String) (attributes : List Attribute)
  /-- The tag of an element with nothing in it. -/
  | empty (name : String) (attributes : List Attribute)
  | closing (name : String)
  deriving DecidableEq, Repr

/-- The name of an attribute, from what stands before the quote that opens its value. -/
def attributeName? : List Char → Option String
  | ' ' :: cs =>
    if cs.getLast? = some '=' ∧ IsName cs.dropLast then some (String.ofList cs.dropLast) else none
  | _ => none

/-- The attributes of a tag and what stands after them, from the pieces between quotes. -/
def readAttributes : List (List Char) → Option (List Attribute × List Char)
  | [] => none
  | [ending] => some ([], ending)
  | before :: value :: rest =>
    match attributeName? before, unescape value, readAttributes rest with
    | some name, some value, some (more, ending) =>
      some ((name, String.ofList value) :: more, ending)
    | _, _, _ => none

/-- The tag with a name and attributes, from what stands after them. -/
def Tag.ofEnding (name : String) (attributes : List Attribute) : List Char → Option Tag
  | [] => some (.opening name attributes)
  | ['/'] => some (.empty name attributes)
  | _ => none

/-- The tag that opens an element, or that of an empty one. No two attributes have one name. -/
def readOpening (cs : List Char) : Option Tag :=
  let name := cs.takeWhile isNameChar
  match readAttributes (Text.pieces '"' (cs.dropWhile isNameChar)) with
  | none => none
  | some (attributes, ending) =>
    if IsName name ∧ (attributes.map (·.1)).Nodup then
      Tag.ofEnding (String.ofList name) attributes ending
    else none

/-- The tag that stands between `<` and `>`. -/
def readTag : List Char → Option Tag
  | '/' :: name => if IsName name then some (.closing (String.ofList name)) else none
  | cs => readOpening cs

/-! ## Elements -/

/-- An element that is open. -/
structure Frame where
  name : String
  attributes : List Attribute
  /-- The elements in it so far, the last first. -/
  inside : List Element
  /-- The characters in it so far, outside of tags and of the elements in it. -/
  said : List Char

namespace Frame

def put (f : Frame) (e : Element) : Frame := { f with inside := e :: f.inside }

def say (f : Frame) (cs : List Char) : Frame := { f with said := f.said ++ cs }

/-- The element, at the tag that closes it. It holds a text and no elements, or elements with
nothing but white space between them. -/
def close (holdsText : String → Bool) (f : Frame) : Option Element :=
  if holdsText f.name then
    if f.inside.isEmpty then
      (unescape f.said).map fun content => .text f.name f.attributes (String.ofList content)
    else none
  else if f.said.all Char.isWhitespace then some (.node f.name f.attributes f.inside.reverse)
  else none

end Frame

/-- How far a document is read. -/
structure Reading where
  /-- The innermost element that is open. -/
  frame : Frame
  /-- The elements around it, from the inside out. -/
  around : List Frame
  /-- The characters of a tag that is not at its end. -/
  tag : Option (List Char)

section
variable (holdsText : String → Bool)

/-- A tag, between the elements that are open. -/
def meet (f : Frame) (around : List Frame) : Tag → Option Reading
  | .opening name attributes => some ⟨⟨name, attributes, [], []⟩, f :: around, none⟩
  | .empty name attributes => some ⟨f.put (.leaf name attributes), around, none⟩
  | .closing name =>
    match around with
    | [] => none
    | outer :: around =>
      if name = f.name then (f.close holdsText).map fun e => ⟨outer.put e, around, none⟩ else none

namespace Reading

/-- The next character. -/
def step (r : Reading) (c : Char) : Option Reading :=
  match r.tag with
  | none =>
    some (if c = '<' then { r with tag := some [] } else { r with frame := r.frame.say [c] })
  | some cs =>
    if c = '>' then (readTag cs).bind (meet holdsText r.frame r.around)
    else if c = '<' then none
    else some { r with tag := some (cs ++ [c]) }

def run (r : Reading) (cs : List Char) : Option Reading := cs.foldlM (step holdsText) r

/-- Before the first character after the declaration: no element is open. -/
def start : Reading := ⟨⟨"", [], [], []⟩, [], none⟩

/-- The only element, where no element is open and no tag has begun. -/
def root? (r : Reading) : Option Element :=
  match r.frame.inside, r.around, r.tag with
  | [e], [], none => if r.frame.said.all Char.isWhitespace then some e else none
  | _, _, _ => none

end Reading

/-- The root element of a text that starts with the declaration. -/
def readDocument (text : String) : Option Element :=
  let front := Element.declaration.toList
  if front.isPrefixOf text.toList then
    (Reading.start.run holdsText (text.toList.drop front.length)).bind (·.root?)
  else none

end

/-! ## Entities are undone -/

theorem unescape_cons {c : Char} (h : c ∉ reserved) (rest : List Char) :
    unescape (c :: rest) = (unescape rest).map (c :: ·) := by
  have hamp : c ≠ '&' := fun heq => h (heq ▸ by decide)
  rw [unescape.eq_def]
  split
  · rename_i heq
    cases heq
  all_goals rename_i heq
  case h_7 => obtain ⟨rfl, rfl⟩ := List.cons.inj heq; rw [if_neg h]
  all_goals exact absurd (List.cons.inj heq).1 hamp

theorem escapeChar_of_not_mem {c : Char} (h : c ∉ reserved) : escapeChar c = [c] := by
  simp only [reserved, List.mem_cons, List.not_mem_nil, or_false, not_or] at h
  obtain ⟨hlt, hgt, hamp, hapos, hquot⟩ := h
  rw [escapeChar, if_neg hlt, if_neg hgt, if_neg hamp, if_neg hapos, if_neg hquot]

theorem unescape_escapeChar (c : Char) (rest : List Char) :
    unescape (escapeChar c ++ rest) = (unescape rest).map (c :: ·) := by
  by_cases h : c ∈ reserved
  · simp only [reserved, List.mem_cons, List.not_mem_nil, or_false] at h
    rcases h with rfl | rfl | rfl | rfl | rfl <;> rfl
  · rw [escapeChar_of_not_mem h, List.singleton_append, unescape_cons h]

theorem unescape_escape (s : String) : unescape (escape s) = some s.toList := by
  rw [escape]
  induction s.toList with
  | nil => rfl
  | cons c cs ih => rw [List.flatMap_cons, unescape_escapeChar, ih, Option.map_some]

/-- Of the reserved characters only ampersands stand in what is escaped. -/
theorem not_mem_escape {c : Char} (hc : c ∈ reserved) (hamp : c ≠ '&') (s : String) :
    c ∉ escape s := by
  intro h
  obtain ⟨d, -, hd⟩ := List.mem_flatMap.mp h
  by_cases hdres : d ∈ reserved
  · revert hd
    simp only [reserved, List.mem_cons, List.not_mem_nil, or_false] at hc hdres
    rcases hdres with rfl | rfl | rfl | rfl | rfl <;>
      rcases hc with rfl | rfl | rfl | rfl | rfl <;> first | exact absurd rfl hamp | decide
  · rw [escapeChar_of_not_mem hdres, List.mem_singleton] at hd
    exact hdres (hd ▸ hc)

/-! ## Tags are read back -/

theorem IsName.all {cs : List Char} (h : IsName cs) : ∀ c ∈ cs, isNameChar c = true :=
  List.all_eq_true.mp h.2

theorem IsName.not_mem {cs : List Char} (h : IsName cs) {c : Char} (hc : isNameChar c = false) :
    c ∉ cs :=
  fun hmem => Bool.false_ne_true (hc.symm.trans (h.all c hmem))

/-- The tag of an element of that name, with attributes of those names, can be read back. -/
structure IsTag (name : String) (attributeNames : List String) : Prop where
  name : IsName name.toList
  attributes : ∀ a ∈ attributeNames, IsName a.toList
  nodup : attributeNames.Nodup

instance (name : String) (names : List String) : Decidable (IsTag name names) :=
  decidable_of_iff (IsName name.toList ∧ (∀ a ∈ names, IsName a.toList) ∧ names.Nodup)
    ⟨fun h => ⟨h.1, h.2.1, h.2.2⟩, fun h => ⟨h.name, h.attributes, h.nodup⟩⟩

/-- A tag has fewer attributes. -/
theorem IsTag.sublist {name : String} {names all : List String} (h : IsTag name all)
    (hsub : names.Sublist all) : IsTag name names :=
  ⟨h.name, fun a ha => h.attributes a (hsub.subset ha), h.nodup.sublist hsub⟩

theorem attributeName?_eq {name : String} (h : IsName name.toList) :
    attributeName? (' ' :: (name.toList ++ ['='])) = some name := by
  rw [attributeName?, List.getLast?_concat, List.dropLast_concat, if_pos ⟨rfl, h⟩,
    String.ofList_toList]

theorem readAttributes_pieces {attributes : List Attribute} {ending : List Char}
    (hnames : ∀ a ∈ attributes, IsName a.1.toList) (hending : '"' ∉ ending) :
    readAttributes (Text.pieces '"' (attributes.flatMap writeAttribute ++ ending)) =
      some (attributes, ending) := by
  induction attributes with
  | nil => rw [List.flatMap_nil, List.nil_append, Text.pieces_of_not_mem hending, readAttributes]
  | cons a more ih =>
    have hname := hnames a List.mem_cons_self
    have hbefore : '"' ∉ ' ' :: (a.1.toList ++ ['=']) := by
      simp only [List.mem_cons, List.mem_append, List.not_mem_nil, or_false, not_or]
      exact ⟨by decide, hname.not_mem (by decide), by decide⟩
    have hwritten : (a :: more).flatMap writeAttribute ++ ending =
        (' ' :: (a.1.toList ++ ['='])) ++ '"' ::
          (escape a.2 ++ '"' :: (more.flatMap writeAttribute ++ ending)) := by
      simp only [List.flatMap_cons, writeAttribute, List.cons_append, List.append_assoc,
        List.nil_append]
    rw [hwritten, Text.pieces_append hbefore,
      Text.pieces_append (not_mem_escape (by decide) (by decide) a.2), readAttributes,
      attributeName?_eq hname, unescape_escape,
      ih fun b hb => hnames b (List.mem_cons_of_mem a hb)]
    simp only [String.ofList_toList]

/-- What follows the name in a tag does not go on with the name. -/
theorem head_not_name (attributes : List Attribute) {ending : List Char}
    (hending : ∀ c ∈ ending.head?, isNameChar c = false) :
    ∀ c ∈ (attributes.flatMap writeAttribute ++ ending).head?, isNameChar c = false := by
  cases attributes with
  | nil => exact hending
  | cons a more =>
    rintro c hc
    cases hc
    decide

theorem takeWhile_name {name rest : List Char} (hname : IsName name)
    (hrest : ∀ c ∈ rest.head?, isNameChar c = false) :
    (name ++ rest).takeWhile isNameChar = name ∧ (name ++ rest).dropWhile isNameChar = rest := by
  rw [List.takeWhile_append_of_pos hname.all, List.dropWhile_append_of_pos hname.all]
  cases rest with
  | nil => exact ⟨List.append_nil name, rfl⟩
  | cons c rest =>
    have hc := hrest c rfl
    rw [List.takeWhile_cons_of_neg (by rw [hc]; decide), List.append_nil,
      List.dropWhile_cons_of_neg (by rw [hc]; decide)]
    exact ⟨rfl, rfl⟩

/-- A tag that starts with a name is none that closes an element. -/
theorem readTag_of_name {name : List Char} (h : IsName name) (rest : List Char) :
    readTag (name ++ rest) = readOpening (name ++ rest) := by
  cases name with
  | nil => exact absurd h.1 (by decide)
  | cons c name =>
    have hc : c ≠ '/' := by
      rintro rfl
      exact h.not_mem (by decide) List.mem_cons_self
    rw [List.cons_append, readTag.eq_2]
    exact fun _ heq => hc (List.cons.inj heq).1

theorem readTag_written {name : String} {attributes : List Attribute} {ending : List Char}
    (h : IsTag name (attributes.map (·.1))) (hhead : ∀ c ∈ ending.head?, isNameChar c = false)
    (hquote : '"' ∉ ending) :
    readTag (writeTag name attributes ++ ending) = Tag.ofEnding name attributes ending := by
  obtain ⟨htake, hdrop⟩ := takeWhile_name h.name (head_not_name attributes hhead)
  have hnames : ∀ a ∈ attributes, IsName a.1.toList :=
    fun a ha => h.attributes a.1 (List.mem_map_of_mem ha)
  rw [writeTag, List.append_assoc, readTag_of_name h.name, readOpening, htake, hdrop,
    readAttributes_pieces hnames hquote]
  simp only
  rw [if_pos ⟨h.name, h.nodup⟩, String.ofList_toList]

theorem readTag_opening {name : String} {attributes : List Attribute}
    (h : IsTag name (attributes.map (·.1))) :
    readTag (writeTag name attributes) = some (.opening name attributes) := by
  rw [← List.append_nil (writeTag name attributes)]
  exact readTag_written h nofun (by decide)

theorem readTag_empty {name : String} {attributes : List Attribute}
    (h : IsTag name (attributes.map (·.1))) :
    readTag (writeTag name attributes ++ ['/']) = some (.empty name attributes) := by
  refine readTag_written h (fun c hc => ?_) (by decide)
  cases hc
  decide

theorem readTag_closing {name : String} (h : IsName name.toList) :
    readTag ('/' :: name.toList) = some (.closing name) := by
  rw [readTag, if_pos h, String.ofList_toList]

theorem not_mem_writeTag {name : String} {attributes : List Attribute}
    (h : IsTag name (attributes.map (·.1))) {c : Char} (hc : c = '<' ∨ c = '>') :
    c ∉ writeTag name attributes := by
  have hname : isNameChar c = false := by rcases hc with rfl | rfl <;> decide
  have hescape : ∀ s, c ∉ escape s := by
    rcases hc with rfl | rfl <;> exact not_mem_escape (by decide) (by decide)
  have hother : c ∉ [' ', '=', '"'] := by rcases hc with rfl | rfl <;> decide
  simp only [List.mem_cons, List.not_mem_nil, or_false, not_or] at hother
  rw [writeTag, List.mem_append, List.mem_flatMap, not_or]
  refine ⟨h.name.not_mem hname, ?_⟩
  rintro ⟨a, ha, hmem⟩
  have haname := (h.attributes a.1 (List.mem_map_of_mem ha)).not_mem hname
  simp only [writeAttribute, List.mem_append, List.mem_cons, List.not_mem_nil, or_false] at hmem
  rcases hmem with ((hmem | hmem) | hmem | hmem | hmem) | hmem
  · exact hother.1 hmem
  · exact haname hmem
  · exact hother.2.1 hmem
  · exact hother.2.2 hmem
  · exact hescape a.2 hmem
  · exact hother.2.2 hmem

/-- The characters can stand between `<` and `>`. -/
def IsInner (cs : List Char) : Prop := '<' ∉ cs ∧ '>' ∉ cs

instance (cs : List Char) : Decidable (IsInner cs) := inferInstanceAs (Decidable (_ ∧ _))

theorem IsInner.append {front rest : List Char} (hfront : IsInner front) (hrest : IsInner rest) :
    IsInner (front ++ rest) :=
  ⟨List.not_mem_append hfront.1 hrest.1, List.not_mem_append hfront.2 hrest.2⟩

theorem isInner_writeTag {name : String} {attributes : List Attribute}
    (h : IsTag name (attributes.map (·.1))) : IsInner (writeTag name attributes) :=
  ⟨not_mem_writeTag h (.inl rfl), not_mem_writeTag h (.inr rfl)⟩

theorem IsName.isInner {cs : List Char} (h : IsName cs) : IsInner cs :=
  ⟨h.not_mem (by decide), h.not_mem (by decide)⟩

/-! ## Elements are read back -/

/-- An element that a reader can tell from others: its tags can be read back, and it holds a text
just if elements of its name do. -/
inductive Element.IsPlain (holdsText : String → Bool) : Element → Prop
  | leaf {name : String} {attributes : List Attribute} :
    IsTag name (attributes.map (·.1)) → IsPlain holdsText (.leaf name attributes)
  | text {name : String} {attributes : List Attribute} (content : String) :
    IsTag name (attributes.map (·.1)) → holdsText name = true →
      IsPlain holdsText (.text name attributes content)
  | node {name : String} {attributes : List Attribute} {children : List Element} :
    IsTag name (attributes.map (·.1)) → holdsText name = false →
      (∀ e ∈ children, e.IsPlain holdsText) → IsPlain holdsText (.node name attributes children)

section
variable {holdsText : String → Bool}

namespace Reading

theorem run_append (r : Reading) (front rest : List Char) :
    r.run holdsText (front ++ rest) = (r.run holdsText front).bind (·.run holdsText rest) :=
  List.foldlM_append

/-- Outside of tags, characters are taken as they stand. -/
theorem run_said {cs : List Char} (h : '<' ∉ cs) (f : Frame) (around : List Frame) :
    run holdsText ⟨f, around, none⟩ cs = some ⟨f.say cs, around, none⟩ := by
  induction cs generalizing f with
  | nil => simp only [run, List.foldlM_nil, Frame.say, List.append_nil, pure]
  | cons c cs ih =>
    rw [List.mem_cons, not_or] at h
    have hstep : step holdsText ⟨f, around, none⟩ c = some ⟨f.say [c], around, none⟩ := by
      simp only [step, if_neg (Ne.symm h.1)]
    rw [run, List.foldlM_cons, hstep]
    refine (ih h.2 (f.say [c])).trans ?_
    simp only [Frame.say, List.append_assoc, List.singleton_append]

/-- Inside a tag, characters are kept for its end. -/
theorem run_inTag {cs : List Char} (h : IsInner cs) (f : Frame) (around : List Frame)
    (front : List Char) :
    run holdsText ⟨f, around, some front⟩ cs = some ⟨f, around, some (front ++ cs)⟩ := by
  induction cs generalizing front with
  | nil => simp only [run, List.foldlM_nil, List.append_nil, pure]
  | cons c cs ih =>
    obtain ⟨⟨hlt, hlt'⟩, hgt, hgt'⟩ :=
      h.imp List.ne_and_not_mem_of_not_mem_cons List.ne_and_not_mem_of_not_mem_cons
    have hstep : step holdsText ⟨f, around, some front⟩ c =
        some ⟨f, around, some (front ++ [c])⟩ := by
      simp only [step, if_neg hlt.symm, if_neg hgt.symm]
    rw [run, List.foldlM_cons, hstep]
    refine (ih ⟨hlt', hgt'⟩ (front ++ [c])).trans ?_
    rw [List.append_assoc, List.singleton_append]

/-- A tag is met at its end. -/
theorem run_tag {cs : List Char} (h : IsInner cs) (f : Frame) (around : List Frame) :
    run holdsText ⟨f, around, none⟩ ('<' :: cs ++ ['>']) =
      (readTag cs).bind (meet holdsText f around) := by
  have hopen : run holdsText ⟨f, around, none⟩ ['<'] = some ⟨f, around, some []⟩ := rfl
  rw [← List.singleton_append, List.append_assoc, run_append, hopen, Option.bind_some, run_append,
    run_inTag h, Option.bind_some, List.nil_append]
  exact Option.bind_fun_some _

end Reading

/-- The frame after an element is put into it on a new line. -/
def Frame.putLine (level : Nat) (f : Frame) (e : Element) : Frame :=
  (f.say (Text.newLine level)).put e

/-- What stands inside a frame after elements have been put into it, each on a new line. -/
theorem foldl_put (level : Nat) (es : List Element) (f : Frame) :
    es.foldl (Frame.putLine level) f =
      ⟨f.name, f.attributes, es.reverse ++ f.inside,
        f.said ++ es.flatMap fun _ => Text.newLine level⟩ := by
  induction es generalizing f with
  | nil =>
    simp only [List.foldl_nil, List.reverse_nil, List.nil_append, List.flatMap_nil, List.append_nil]
  | cons e es ih =>
    rw [List.foldl_cons, ih]
    simp only [Frame.putLine, Frame.put, Frame.say, List.reverse_cons, List.append_assoc,
      List.singleton_append, List.flatMap_cons]

theorem isWhitespace_of_mem_newLine {level : Nat} {c : Char} (h : c ∈ Text.newLine level) :
    c.isWhitespace = true := by
  rcases List.mem_cons.mp h with rfl | h
  · decide
  · rw [(List.mem_replicate.mp h).2]
    decide

theorem not_mem_newLine (level : Nat) : '<' ∉ Text.newLine level := fun h =>
  absurd (isWhitespace_of_mem_newLine h) (by decide)

/-- What a tag that opens an element does. -/
theorem run_opening {name : String} {attributes : List Attribute}
    (h : IsTag name (attributes.map (·.1))) (f : Frame) (around : List Frame) :
    Reading.run holdsText ⟨f, around, none⟩ ('<' :: writeTag name attributes ++ ['>']) =
      some ⟨⟨name, attributes, [], []⟩, f :: around, none⟩ := by
  rw [Reading.run_tag (isInner_writeTag h), readTag_opening h]
  rfl

theorem run_empty {name : String} {attributes : List Attribute}
    (h : IsTag name (attributes.map (·.1))) (f : Frame) (around : List Frame) :
    Reading.run holdsText ⟨f, around, none⟩ ('<' :: writeTag name attributes ++ ['/', '>']) =
      some ⟨f.put (.leaf name attributes), around, none⟩ := by
  have hinner : IsInner (writeTag name attributes ++ ['/']) :=
    (isInner_writeTag h).append (by decide)
  have hsplit : '<' :: writeTag name attributes ++ ['/', '>'] =
      '<' :: (writeTag name attributes ++ ['/']) ++ ['>'] := by
    simp only [List.cons_append, List.append_assoc, List.nil_append]
  rw [hsplit, Reading.run_tag hinner, readTag_empty h]
  rfl

/-- A tag that closes the innermost element puts it into the one around it. -/
theorem run_closing {name : String} {attributes : List Attribute} {inside : List Element}
    {said : List Char} {e : Element} (hname : IsName name.toList)
    (hclose : Frame.close holdsText ⟨name, attributes, inside, said⟩ = some e) (outer : Frame)
    (around : List Frame) :
    Reading.run holdsText ⟨⟨name, attributes, inside, said⟩, outer :: around, none⟩
      (writeClosing name) = some ⟨outer.put e, around, none⟩ := by
  have hslash : IsInner ['/'] := by decide
  have hinner : IsInner ('/' :: name.toList) := hslash.append hname.isInner
  rw [writeClosing]
  refine (Reading.run_tag hinner _ (outer :: around)).trans ?_
  rw [readTag_closing hname, Option.bind_some, meet, if_pos rfl, hclose, Option.map_some]

/-- Reading an element that is written puts it into the innermost open one. -/
def IsRead (holdsText : String → Bool) (e : Element) : Prop :=
  ∀ (level : Nat) (f : Frame) (around : List Frame),
    Reading.run holdsText ⟨f, around, none⟩ (e.write level) = some ⟨f.putLine level e, around, none⟩

theorem run_writeAll {es : List Element} (h : ∀ e ∈ es, IsRead holdsText e) (level : Nat)
    (f : Frame) (around : List Frame) :
    Reading.run holdsText ⟨f, around, none⟩ (Element.writeAll level es) =
      some ⟨es.foldl (Frame.putLine level) f, around, none⟩ := by
  induction es generalizing f with
  | nil => rfl
  | cons e es ih =>
    rw [Element.writeAll, Reading.run_append, h e List.mem_cons_self, Option.bind_some,
      ih fun d hd => h d (List.mem_cons_of_mem e hd), List.foldl_cons]

theorem isRead_leaf {name : String} {attributes : List Attribute}
    (h : IsTag name (attributes.map (·.1))) : IsRead holdsText (.leaf name attributes) := by
  intro level f around
  have hsplit : Element.write level (.leaf name attributes) =
      Text.newLine level ++ ('<' :: writeTag name attributes ++ ['/', '>']) := by
    rw [Element.write, List.append_assoc]
  rw [hsplit, Reading.run_append, Reading.run_said (not_mem_newLine level), Option.bind_some,
    run_empty h]
  rfl

theorem isRead_text {name : String} {attributes : List Attribute} (content : String)
    (h : IsTag name (attributes.map (·.1))) (hholds : holdsText name = true) :
    IsRead holdsText (.text name attributes content) := by
  intro level f around
  have hsplit : Element.write level (.text name attributes content) =
      Text.newLine level ++ (('<' :: writeTag name attributes ++ ['>']) ++
        (escape content ++ writeClosing name)) := by
    simp only [Element.write, List.append_assoc, List.cons_append, List.nil_append]
  have hclose : Frame.close holdsText ⟨name, attributes, [], escape content⟩ =
      some (.text name attributes content) := by
    rw [Frame.close, if_pos hholds, List.isEmpty_nil, if_pos rfl, unescape_escape, Option.map_some,
      String.ofList_toList]
  rw [hsplit, Reading.run_append, Reading.run_said (not_mem_newLine level), Option.bind_some,
    Reading.run_append, run_opening h, Option.bind_some, Reading.run_append,
    Reading.run_said (not_mem_escape (by decide) (by decide) content), Option.bind_some]
  exact run_closing h.name hclose _ around

theorem isRead_node {name : String} {attributes : List Attribute} {children : List Element}
    (h : IsTag name (attributes.map (·.1))) (hholds : holdsText name = false)
    (hchildren : ∀ e ∈ children, IsRead holdsText e) :
    IsRead holdsText (.node name attributes children) := by
  intro level f around
  have hsplit : Element.write level (.node name attributes children) =
      Text.newLine level ++ (('<' :: writeTag name attributes ++ ['>']) ++
        (Element.writeAll (level + 1) children ++ (Text.newLine level ++ writeClosing name))) := by
    simp only [Element.write, List.append_assoc, List.cons_append, List.nil_append]
  have hblank : (children.flatMap (fun _ => Text.newLine (level + 1)) ++
      Text.newLine level).all Char.isWhitespace = true := by
    rw [List.all_eq_true]
    intro c hc
    rcases List.mem_append.mp hc with hc | hc
    · obtain ⟨-, -, hc⟩ := List.mem_flatMap.mp hc
      exact isWhitespace_of_mem_newLine hc
    · exact isWhitespace_of_mem_newLine hc
  have hclose : Frame.close holdsText ⟨name, attributes, children.reverse,
      children.flatMap (fun _ => Text.newLine (level + 1)) ++ Text.newLine level⟩ =
      some (.node name attributes children) := by
    rw [Frame.close, hholds, if_neg Bool.false_ne_true, if_pos hblank, List.reverse_reverse]
  rw [hsplit, Reading.run_append, Reading.run_said (not_mem_newLine level), Option.bind_some,
    Reading.run_append, run_opening h, Option.bind_some, Reading.run_append,
    run_writeAll hchildren, foldl_put, Option.bind_some, Reading.run_append,
    Reading.run_said (not_mem_newLine level), Option.bind_some]
  simp only [Frame.say, List.append_nil, List.nil_append]
  exact run_closing h.name hclose _ around

theorem Element.IsPlain.isRead {e : Element} (h : e.IsPlain holdsText) : IsRead holdsText e := by
  induction h with
  | leaf htag => exact isRead_leaf htag
  | text content htag hholds => exact isRead_text content htag hholds
  | node htag hholds _ ih => exact isRead_node htag hholds ih

/-- A document gives back the element it was written from. -/
theorem readDocument_document {e : Element} (h : e.IsPlain holdsText) :
    readDocument holdsText e.document = some e := by
  have hend : '<' ∉ ['\n'] := by decide
  have hrun : Reading.start.run holdsText (e.write 0 ++ ['\n']) =
      some ⟨(Reading.start.frame.putLine 0 e).say ['\n'], [], none⟩ := by
    rw [Reading.run_append, Reading.start, h.isRead 0, Option.bind_some, Reading.run_said hend]
  rw [readDocument, Element.document, String.toList_ofList, List.append_assoc,
    if_pos (List.isPrefixOf_iff_prefix.mpr (List.prefix_append _ _)), List.drop_left, hrun]
  rfl

/-- Tags that cross are not read. -/
example : (readDocument (fun _ => false)
    (Element.declaration ++ "<Wix><Product></Wix></Product>")).isNone = true := by decide +kernel

/-- Two elements that can be told from others have different documents. -/
theorem eq_of_document_eq {d e : Element} (hd : d.IsPlain holdsText) (he : e.IsPlain holdsText)
    (h : d.document = e.document) : d = e := by
  refine Option.some.inj ?_
  rw [← readDocument_document hd, ← readDocument_document he, h]

end

end Installer.Xml
