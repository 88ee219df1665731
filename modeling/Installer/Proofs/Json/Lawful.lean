import Installer.Json.Codec
import Installer.Proofs.Json.Document

/-!
# Codecs that read back what they write

A codec is lawful if reading the document of a written value gives the value, wherever there is room
for its arrays and objects. The law of a record comes from its fields: `Schema.refill` reads the
written fields into a blank record one after the other, and a schema is lawful if that gives the
record back (`Schema.read_write`); an item of several shapes is first found by its tag
(`Variant.read_write`).

**What it does not establish.** A lawful codec may also read what it never writes: members in another
order, defaults that are left out, members that it passes over.
-/

set_option autoImplicit false

namespace Installer.Json
open Result

/-- A codec that reads what it has written, where arrays and objects may nest `depth` deep. -/
class Codec.Lawful {α : Type} (c : Codec α) (depth : outParam Nat) : Prop where
  read_write : ∀ (p : Place) (a : α), depth ≤ p.room → c.read p (.of (c.write a)) = .ok a

namespace Codec
variable {α : Type}

instance : Lawful text 0 := ⟨fun _ _ _ => rfl⟩

instance : Lawful flag 0 := ⟨fun _ _ _ => rfl⟩

instance [Keyword α] : Lawful (keyword (α := α)) 0 where
  read_write _ a _ := by
    show variantOf (Keyword.spelling a) = .ok a
    rw [variantOf, Keyword.read?_spelling]

/-- A number up to the limit is read from its numeral. -/
theorem readNatural_integer {limit n : Nat} (hn : n ≤ limit) (hlimit : limit < UInt64.size) (p : Place) :
    readNatural limit p (.of (.integer n)) = .ok n := by
  have hnumber : (Numeral.ofInt n).number = .ok (.integer n) :=
    Numeral.number_ofInt (Nat.lt_of_le_of_lt hn hlimit)
  simp [readNatural, Document.of, hnumber, hn]
  rfl

instance : Lawful word16 0 where
  read_write p n _ := by
    have hn : n.toNat ≤ 65535 := Nat.le_of_lt_succ n.toNat_lt
    have hread := readNatural_integer hn (by decide) p
    simp [word16, hread, Except.map]

instance : Lawful word32 0 where
  read_write p n _ := by
    have hn : n.toNat ≤ 4294967295 := Nat.le_of_lt_succ n.toNat_lt
    have hread := readNatural_integer hn (by decide) p
    simp [word32, hread, Except.map]

/-- A value that is never written as null can be optional. -/
theorem optional_lawful {c : Codec α} {depth : Nat} [Lawful c depth]
    (hnull : ∀ a, c.write a ≠ .null) : Lawful (optional c) depth where
  read_write p a hp := by
    cases a with
    | none => rfl
    | some a =>
      have hread := Lawful.read_write (c := c) p a hp
      show (optional c).read p (.of (c.write a)) = _
      cases hv : c.write a with
      | null => exact absurd hv (hnull a)
      | boolean _ | integer _ | text _ | array _ | object _ =>
        rw [hv] at hread
        simp only [optional, Document.of] at hread ⊢
        rw [hread]
        rfl

instance : Lawful (optional text) 0 := optional_lawful fun _ => nofun

instance : Lawful (optional flag) 0 := optional_lawful fun _ => nofun

theorem inside_of_room {p : Place} {depth : Nat} (h : depth + 1 ≤ p.room) :
    p.inside = .ok { p with room := p.room - 1 } := by
  rw [Place.inside, if_neg (by omega)]

instance {c : Codec α} {depth : Nat} [Lawful c depth] : Lawful (list c) (depth + 1) where
  read_write p as hp := by
    have hitems : ∀ as : List α, readItems c.read { p with room := p.room - 1 }
        (.of (as.map c.write)) = .ok as := by
      intro as
      induction as with
      | nil => rfl
      | cons a as ih =>
        have hread := Lawful.read_write (c := c) { p with room := p.room - 1 } a
          (Nat.le_sub_of_add_le hp)
        rw [List.map_cons, Items.of, readItems, hread, ok_bind, ih]
        rfl
    show (do readItems c.read (← p.inside) (.of (as.map c.write))) = _
    rw [inside_of_room hp, ok_bind, hitems]

/-- Entries are put behind entries with lower names. -/
theorem put_of_lower {name text : String} : ∀ {es : List (String × String)},
    (∀ e ∈ es, e.1 < name) → Dictionary.put name text es = es ++ [(name, text)]
  | [], _ => rfl
  | e :: es, h => by
    obtain ⟨he, hes⟩ := List.forall_mem_cons.mp h
    have hnot : ¬name < e.1 := String.lt_asymm he
    have hne : name ≠ e.1 := fun heq => String.lt_irrefl name (heq ▸ he)
    rw [Dictionary.put, if_neg hnot, if_neg hne, put_of_lower hes, List.cons_append]

/-- Entries in ascending order make a dictionary of just these entries. -/
theorem entries_ofList {es : List (String × String)} (h : es.Pairwise fun a b => a.1 < b.1) :
    (Dictionary.ofList es).entries = es := by
  have hfold : ∀ (more : List (String × String)) (d : Dictionary),
      (d.entries ++ more).Pairwise (fun a b => a.1 < b.1) →
      (more.foldl (fun d e => d.insert e.1 e.2) d).entries = d.entries ++ more := by
    intro more
    induction more with
    | nil => intro d _; simp
    | cons e more ih =>
      intro d hd
      have hlower : ∀ x ∈ d.entries, x.1 < e.1 := fun x hx =>
        (List.pairwise_append.mp hd).2.2 x hx e List.mem_cons_self
      have hinsert : (d.insert e.1 e.2).entries = d.entries ++ [e] := put_of_lower hlower
      rw [List.foldl_cons, ih, hinsert, List.append_assoc, List.singleton_append]
      rwa [hinsert, List.append_assoc, List.singleton_append]
  exact hfold es Dictionary.empty h

@[simp] theorem isEmpty_iff {d : Dictionary} : d.isEmpty = true ↔ d = .empty := by
  rw [Dictionary.isEmpty, List.isEmpty_iff]
  exact ⟨fun h => Dictionary.ext h, fun h => congrArg Dictionary.entries h⟩

instance : Lawful dictionary 1 where
  read_write p d hp := by
    have hentries : ∀ (p : Place) (es : List (String × String)),
        readEntries p (.of (es.map fun e : String × String => (e.1, .text e.2))) = .ok es := by
      intro p es
      induction es with
      | nil => rfl
      | cons e es ih => simp [Members.of, readEntries, ih, text, Document.of]
    show (do
      let es ← readEntries (← p.inside)
        (.of (d.entries.map fun e : String × String => (e.1, .text e.2)))
      return Dictionary.ofList es) = _
    rw [inside_of_room hp, ok_bind, hentries, ok_bind]
    exact congrArg Except.ok (Dictionary.ext (entries_ofList d.ascending))

end Codec

/-! ## Records -/

namespace Schema
variable {ρ α : Type}

/-- Reads the written fields of a record into another one after the other. -/
def refill (p : Place) (r : ρ) : List (Field ρ) → ρ → Except Fault ρ
  | [], t => .ok t
  | f :: fields, t =>
    match f.write r with
    | none => refill p r fields t
    | some v => do
      let set ← f.read p (.of v)
      refill p r fields (set t)

section Refill
variable {p : Place} {r t : ρ} {fields : List (Field ρ)} {name : String} {c : Codec α}
  {get : ρ → α} {set : α → ρ → ρ} {depth : Nat} [Codec.Lawful c depth]

@[simp] theorem refill_nil : refill p r [] t = .ok t := rfl

/-- A field that is always written puts what the record has. -/
theorem refill_ofNeed {need : Need} (hp : depth ≤ p.room) :
    refill p r (.ofNeed need name c get set :: fields) t =
      refill p r fields (set (get r) t) := by
  have hread := Codec.Lawful.read_write (c := c) p (get r) hp
  simp [refill, Field.ofNeed, hread, Except.map]

@[simp] theorem refill_required (hp : depth ≤ p.room) :
    refill p r (.required name c get set :: fields) t = refill p r fields (set (get r) t) :=
  refill_ofNeed hp

@[simp] theorem refill_defaulted (hp : depth ≤ p.room) :
    refill p r (.defaulted name c get set :: fields) t = refill p r fields (set (get r) t) :=
  refill_ofNeed hp

/-- So does one that is left out where the record to be filled has the same already. -/
@[simp] theorem refill_omittedWhen {need : Need} {blank : ρ → Bool} (hp : depth ≤ p.room)
    (hblank : blank r = true → set (get r) t = t) :
    refill p r ((Field.ofNeed need name c get set).omittedWhen blank :: fields) t =
      refill p r fields (set (get r) t) := by
  have hread := Codec.Lawful.read_write (c := c) p (get r) hp
  cases hb : blank r with
  | true => simp [refill, Field.omittedWhen, hb, hblank hb]
  | false => simp [refill, Field.omittedWhen, Field.ofNeed, hb, hread, Except.map]

@[simp] theorem refill_defaulted_omittedWhen {blank : ρ → Bool} (hp : depth ≤ p.room)
    (hblank : blank r = true → set (get r) t = t) :
    refill p r ((Field.defaulted name c get set).omittedWhen blank :: fields) t =
      refill p r fields (set (get r) t) := refill_omittedWhen hp hblank

end Refill

/-- A schema whose fields have names of their own, are written where they are required, and fill a
blank record up again. -/
class Lawful (s : Schema ρ) (depth : outParam Nat) : Prop where
  distinct : (s.fields.map (·.name)).Nodup
  required : ∀ f ∈ s.fields, f.isRequired → ∀ r, (f.write r).isSome
  refill_blank : ∀ (p : Place) (r : ρ), depth ≤ p.room → refill p r s.fields s.blank = .ok r

variable {s : Schema ρ}

theorem find_of_mem {f : Field ρ} : ∀ {fields : List (Field ρ)},
    (fields.map (·.name)).Nodup → f ∈ fields → fields.find? (·.name = f.name) = some f
  | g :: fields, hdistinct, hf => by
    obtain ⟨hg, hfields⟩ := List.nodup_cons.mp hdistinct
    rcases List.mem_cons.mp hf with rfl | hf
    · rw [List.find?_cons_of_pos (by simp)]
    · have hne : ¬g.name = f.name := fun he => hg (List.mem_map.mpr ⟨f, hf, he.symm⟩)
      rw [List.find?_cons_of_neg (by simpa using hne), find_of_mem hfields hf]

/-- The members that some fields of a record are written as. -/
abbrev written (fields : List (Field ρ)) (r : ρ) : List (String × Value) :=
  fields.filterMap fun f => (f.write r).map fun v => (f.name, v)

/-- Members that are written for fields with names of their own are read into them in order. -/
theorem readMembers_written {p : Place} {r : ρ} (hdistinct : (s.fields.map (·.name)).Nodup)
    (hrequired : ∀ f ∈ s.fields, f.isRequired → (f.write r).isSome) {fields : List (Field ρ)} :
    ∀ {seen : List String} {t : ρ}, fields ⊆ s.fields → (fields.map (·.name)).Nodup →
      (∀ f ∈ fields, f.name ∉ seen) →
      (∀ f ∈ s.fields, f.isRequired → f.name ∈ seen ∨ f ∈ fields) →
      ∀ {u : ρ}, refill p r fields t = .ok u →
        s.readMembers p (.of (written fields r)) seen t = .ok u := by
  induction fields with
  | nil =>
    intro seen t _ _ _ hseen u hfill
    have hfound : s.fields.find? (fun f => f.isRequired && !seen.contains f.name) = none := by
      refine List.find?_eq_none.mpr fun f hf => ?_
      by_cases hneed : f.isRequired = true
      · simpa [hneed] using hseen f hf hneed
      · simp [hneed]
    cases hfill
    rw [written, List.filterMap_nil, Members.of, Schema.readMembers, finish, hfound]
  | cons f fields ih =>
    intro seen t hsub hnodup hfresh hseen u hfill
    obtain ⟨hf, hsub⟩ := List.cons_subset.mp hsub
    obtain ⟨hname, hnodup⟩ := List.nodup_cons.mp hnodup
    obtain ⟨hfseen, hfresh⟩ := List.forall_mem_cons.mp hfresh
    cases hwrite : f.write r with
    | none =>
      have hnot : ¬f.isRequired = true := by
        intro hneed
        have hsome := hrequired f hf hneed
        rw [hwrite] at hsome
        cases hsome
      rw [refill, hwrite] at hfill
      rw [written, List.filterMap_cons_none (by rw [hwrite]; rfl)]
      refine ih hsub hnodup hfresh (fun g hg hneed => ?_) hfill
      refine (hseen g hg hneed).imp_right fun hmem => (List.mem_cons.mp hmem).resolve_left ?_
      rintro rfl
      exact hnot hneed
    | some v =>
      rw [refill, hwrite] at hfill
      obtain ⟨set, hread, hfill⟩ := bind_eq_ok.mp hfill
      have hfound := find_of_mem hdistinct hf
      rw [written, List.filterMap_cons_some (by rw [hwrite]; rfl), Members.of, Schema.readMembers,
        ok_bind, hfound]
      simp only [List.contains_eq_mem, hfseen, decide_false, Bool.false_eq_true, if_false, hread,
        ok_bind]
      refine ih hsub hnodup (fun g hg hmem => ?_) (fun g hg hneed => ?_) hfill
      · rcases List.mem_cons.mp hmem with he | hmem
        · exact hname (List.mem_map.mpr ⟨g, hg, he⟩)
        · exact hfresh g hg hmem
      · rcases hseen g hg hneed with hmem | hmem
        · exact .inl (List.mem_cons_of_mem _ hmem)
        · rcases List.mem_cons.mp hmem with rfl | hmem
          · exact .inl List.mem_cons_self
          · exact .inr hmem

/-- The members of a record are read as the record. -/
theorem readMembers_members {depth : Nat} [hs : Lawful s depth] {p : Place} (r : ρ)
    (hp : depth ≤ p.room) : s.readMembers p (.of (s.members r)) [] s.blank = .ok r :=
  readMembers_written hs.distinct (fun f hf hneed => hs.required f hf hneed r) (List.Subset.refl _)
    hs.distinct (fun _ _ => List.not_mem_nil) (fun _ hf _ => .inr hf) (hs.refill_blank p r hp)

instance {depth : Nat} [Lawful s depth] : Codec.Lawful s.codec (depth + 1) where
  read_write p r hp := by
    show (do s.readMembers (← p.inside) (.of (s.members r)) [] s.blank) = _
    rw [Codec.inside_of_room hp, ok_bind, readMembers_members r (Nat.le_sub_of_add_le hp)]

end Schema

/-! ## Plain fields -/

/-- A value without arrays, objects and numbers. -/
def Value.IsPlain : Value → Prop
  | .null | .boolean _ | .text _ => True
  | .integer _ | .array _ | .object _ => False

/-- A codec that writes plain values. -/
class Codec.Plain {α : Type} (c : Codec α) : Prop where
  isPlain_write : ∀ a, (c.write a).IsPlain

instance : Codec.text.Plain := ⟨fun _ => trivial⟩

instance : Codec.flag.Plain := ⟨fun _ => trivial⟩

instance {α : Type} [Keyword α] : (Codec.keyword (α := α)).Plain := ⟨fun _ => trivial⟩

instance {α : Type} {c : Codec α} [c.Plain] : c.optional.Plain where
  isPlain_write
    | none => trivial
    | some a => Codec.Plain.isPlain_write (c := c) a

/-- A field that is not the tag and is written as a plain value. -/
structure Field.IsPlain {ρ : Type} (f : Field ρ) : Prop where
  name : f.name ≠ variantTag
  write : ∀ r v, f.write r = some v → v.IsPlain

namespace Field
variable {ρ α : Type} {name : String} {c : Codec α} {get : ρ → α} {set : α → ρ → ρ}

@[simp] theorem isSome_write_required (r : ρ) :
    ((required name c get set).write r).isSome = true := rfl

@[simp] theorem isRequired_ofNeed (need : Need) :
    (ofNeed need name c get set).isRequired = decide (need = .required) := rfl

@[simp] theorem isRequired_defaulted : (defaulted name c get set).isRequired = false := rfl

@[simp] theorem isRequired_omittedWhen (f : Field ρ) (blank : ρ → Bool) :
    (f.omittedWhen blank).isRequired = f.isRequired := rfl

theorem isPlain_ofNeed [c.Plain] (need : Need) :
    (ofNeed need name c get set).IsPlain ↔ name ≠ variantTag := by
  refine ⟨fun h => h.name, fun h => ⟨h, fun r v hv => ?_⟩⟩
  cases hv
  exact Codec.Plain.isPlain_write (c := c) (get r)

@[simp] theorem isPlain_required [c.Plain] :
    (required name c get set).IsPlain ↔ name ≠ variantTag := isPlain_ofNeed .required

@[simp] theorem isPlain_defaulted [c.Plain] :
    (defaulted name c get set).IsPlain ↔ name ≠ variantTag := isPlain_ofNeed .defaulted

theorem IsPlain.omittedWhen {f : Field ρ} (h : f.IsPlain) (blank : ρ → Bool) :
    (f.omittedWhen blank).IsPlain where
  name := h.name
  write r v hv := by
    simp only [Field.omittedWhen] at hv
    split at hv
    · cases hv
    · exact h.write r v hv

end Field

/-! ## Items of several shapes -/

theorem settle_of_isPlain {v : Value} (h : v.IsPlain) (room : Nat) :
    (Document.of v).settle room = .ok () := by
  cases v with
  | null | boolean _ | text _ => simp [Document.of, Document.settle, Except.map]
  | integer _ | array _ | object _ => exact h.elim

namespace Variant
variable {α ρ : Type} {variants : List (Variant α)}

/-- Members besides the tag do not change what it has named. -/
theorem find_of_plain (v : Variant α) (room : Nat) : ∀ {members : List (String × Value)},
    (∀ m ∈ members, m.1 ≠ variantTag ∧ m.2.IsPlain) →
      find variants room (.of members) (some v) = .ok v
  | [], _ => rfl
  | m :: members, h => by
    obtain ⟨⟨hname, hplain⟩, hmembers⟩ := List.forall_mem_cons.mp h
    rw [Members.of, find]
    simp [hname, settle_of_isPlain hplain, find_of_plain v room hmembers]

/-- Members besides the tag stay when it is taken out. -/
theorem untagged_of_named : ∀ {members : List (String × Value)},
    (∀ m ∈ members, m.1 ≠ variantTag) → untagged (.of members) = .of members
  | [], _ => rfl
  | m :: members, h => by
    obtain ⟨hname, hmembers⟩ := List.forall_mem_cons.mp h
    rw [Members.of, untagged]
    simp [hname, untagged_of_named hmembers]

/-- A record that is written with a tag is read by the variant of that tag. -/
theorem read_write {s : Schema ρ} {depth : Nat} [Schema.Lawful s depth]
    (hplain : ∀ f ∈ s.fields, f.IsPlain) {word : String} {make : ρ → α}
    (hfind : variants.find? (·.word = word) = some (s.variant word make)) {p : Place} (r : ρ)
    (hp : depth + 1 ≤ p.room) : read variants p (.of (write word s r)) = .ok (make r) := by
  have hothers : ∀ m ∈ s.members r, m.1 ≠ variantTag ∧ m.2.IsPlain := by
    intro m hm
    obtain ⟨f, hf, hwritten⟩ := List.mem_filterMap.mp hm
    obtain ⟨v, hv, rfl⟩ := Option.map_eq_some_iff.mp hwritten
    exact ⟨(hplain f hf).name, (hplain f hf).write r v hv⟩
  have hchoose : choose variants (.of (.text word)) = .ok (s.variant word make) := by
    simp only [Document.of, choose, ok_bind, hfind]
    rfl
  have hfound : find variants (p.room - 1) (.of ((variantTag, .text word) :: s.members r)) none =
      .ok (s.variant word make) := by
    rw [Members.of, find]
    simp [hchoose, find_of_plain _ _ hothers]
  have hrest : untagged (.of ((variantTag, .text word) :: s.members r)) = .of (s.members r) := by
    rw [Members.of, untagged]
    simp [untagged_of_named fun m hm => (hothers m hm).1]
  have hmembers := Schema.readMembers_members (s := s)
    (p := { p with room := p.room - 1, buffered := true }) r (Nat.le_sub_of_add_le hp)
  rw [write, Document.of, read, Codec.inside_of_room hp, ok_bind, hfound, ok_bind, hrest]
  show (s.readMembers _ _ [] s.blank).map make = _
  rw [hmembers]
  rfl

end Variant
end Installer.Json
