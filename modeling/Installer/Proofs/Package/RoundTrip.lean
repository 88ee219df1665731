import Installer.Package.Shape
import Installer.Proofs.Payload.Shape

/-!
# The canonical text of a package stands for the package

Every package is read back from its canonical text, so packages with the same text are the same, and
so are packages with the same fingerprint unless the digest of two different texts is the same. Main
statement: `Package.text_isCanonical`.

**What it does not establish.** A fingerprint may belong to two packages: then the two texts are a
collision of the digest, which is named and not excluded.
-/

set_option autoImplicit false

namespace Installer
open Json

/-! ## Records -/

instance : Manifest.Upgrade.shape.Lawful 0 where
  distinct := by decide
  required := by simp [Manifest.Upgrade.shape]
  refill_blank p r hp := by simp [Manifest.Upgrade.shape]

instance : Variable.shape.Lawful 0 where
  distinct := by decide
  required := by simp [Variable.shape]
  refill_blank p r hp := by simp [Variable.shape]

instance : Schedule.Action.shape.Lawful 0 where
  distinct := by decide
  required := by simp [Schedule.Action.shape]
  refill_blank p r hp := by simp [Schedule.Action.shape]

instance : Step.shape.Lawful 0 where
  distinct := by decide
  required := by simp [Step.shape]
  refill_blank p r hp := by simp [Step.shape]

namespace Package

instance : Product.shape.Lawful 1 where
  distinct := by decide
  required := by simp [Product.shape]
  refill_blank p r hp := by simp [Product.shape, hp]

instance : Directory.shape.Lawful 0 where
  distinct := by decide
  required := by simp [Directory.shape]
  refill_blank p r hp := by simp [Directory.shape]

instance : Component.shape.Lawful 2 where
  distinct := by decide
  required := by simp [Component.shape]
  refill_blank p r hp := by simp [Component.shape, hp]

instance : Feature.shape.Lawful 1 where
  distinct := by decide
  required := by simp [Feature.shape]
  refill_blank p r hp := by simp [Feature.shape, hp]

instance : shape.Lawful 4 where
  distinct := by decide
  required := by simp [shape]
  refill_blank p r hp := by simp (disch := omega) [shape]

/-! ## Fingerprints -/

/-- Two different messages with the same digest. -/
def IsCollision (a b : List UInt8) : Prop :=
  a ≠ b ∧ Digest.Sha256.digest a = Digest.Sha256.digest b

theorem utf8_injective {s t : String} (h : Digest.utf8 s = Digest.utf8 t) : s = t := by
  refine String.toByteArray_inj.mp (ByteArray.ext (Array.toList_inj.mp ?_))
  exact h

/-- Bytes are told by their hexadecimal digits. -/
theorem hexDigits_bytes_injective : ∀ {as bs : List UInt8},
    as.flatMap (fun b => Text.hexDigits 2 b.toNat) =
      bs.flatMap (fun b => Text.hexDigits 2 b.toNat) → as = bs
  | [], [], _ => rfl
  | [], b :: bs, h => by simp [Text.hexDigits] at h
  | a :: as, [], h => by simp [Text.hexDigits] at h
  | a :: as, b :: bs, h => by
    rw [List.flatMap_cons, List.flatMap_cons] at h
    obtain ⟨hhead, htail⟩ := List.append_inj h (by simp)
    have hbyte : a = b :=
      UInt8.toNat_inj.mp (Text.hexDigits_injective a.toNat_lt b.toNat_lt hhead)
    rw [hbyte, hexDigits_bytes_injective htail]

/-- Two texts have the same fingerprint exactly if they are the same or their bytes collide. -/
theorem fingerprintOf_eq_iff {s t : String} : fingerprintOf s = fingerprintOf t ↔
    s = t ∨ IsCollision (Digest.utf8 s) (Digest.utf8 t) := by
  constructor
  · intro h
    have hdigest : Digest.Sha256.digest (Digest.utf8 s) = Digest.Sha256.digest (Digest.utf8 t) :=
      hexDigits_bytes_injective (String.ofList_injective h)
    by_cases hst : s = t
    · exact .inl hst
    · exact .inr ⟨fun he => hst (utf8_injective he), hdigest⟩
  · rintro (rfl | ⟨-, hdigest⟩)
    · rfl
    · rw [fingerprintOf, hdigest, fingerprintOf]

/-! ## Packages -/

/-- Every package is read back from its canonical text. -/
theorem ofText_text (p : Package) : ofText p.text = .ok p := by
  have hread := Codec.Lawful.read_write (c := shape.codec) .outermost p (by decide)
  rw [text, ofText, Codec.ofText, Codec.toText, Source.ofText_canonical, hread]
  rfl

theorem text_injective {p q : Package} (h : p.text = q.text) : p = q := by
  have hread := ofText_text p
  rw [h, ofText_text q] at hread
  exact (Except.ok.inj hread).symm

/-- The canonical text of a package stands for it: the text is read as the package, packages with
the same text are the same, fingerprints are the same only for the same package or for a collision,
and what is accepted as a package is written in a text that is not changed by writing it again. -/
theorem text_isCanonical :
    (∀ p : Package, ofText p.text = .ok p) ∧
    (∀ p q : Package, p.text = q.text ↔ p = q) ∧
    (∀ p q : Package, p.fingerprint = q.fingerprint ↔
      p = q ∨ IsCollision (Digest.utf8 p.text) (Digest.utf8 q.text)) ∧
    ∀ s t : String, (ofText s).map text = .ok t → (ofText t).map text = .ok t := by
  have hinjective : ∀ p q : Package, p.text = q.text ↔ p = q :=
    fun p q => ⟨text_injective, fun h => congrArg text h⟩
  refine ⟨ofText_text, hinjective, fun p q => ?_, fun s t h => ?_⟩
  · rw [fingerprint, fingerprint, fingerprintOf_eq_iff, hinjective]
  · cases hread : ofText s with
    | error fault => rw [hread] at h; cases h
    | ok p =>
      rw [hread] at h
      have hp : p.text = t := Except.ok.inj h
      rw [← hp, ofText_text p, Except.map]

end Package
end Installer
