import Installer.Proofs.CommandLine.Success
import Installer.Proofs.Package.Succession
import Mathlib.Data.List.Chain

/-!
# Builds one after another

Each build is compiled and held against the package that was accepted last; an accepted package is the
baseline of the builds after it, and a build that is refused, for whatever rule, leaves the baseline
as it was. One build sees only one earlier package, so what is kept from a build to the next is a
relation between two packages (`Follows`), and the packages accepted in a series form a chain of it
(`isChain_accepted`). What holds across a series comes from that chain by induction on the place of a
package in it. Main statement: `accepted_keeps`.

**What it does not establish.** A key that is gone for a build and comes back later may stand for
another key path, since nothing of the packages before the last accepted one is looked at. The same
holds where a package has one key twice.
-/

set_option autoImplicit false

namespace Installer
open Result

/-- What is built: a manifest, with the settings of the build. -/
structure Build where
  manifest : Manifest
  settings : Settings

namespace Build

/-- The package of a build, held against the baseline if there is one. -/
def make (b : Build) (baseline : Option Package) : Except Violation Package := do
  let p ← b.manifest.compile b.settings
  baseline.toList.forM p.checkBaseline
  return p

/-- The packages accepted from a series of builds, in their order. -/
def accepted (baseline : Option Package) : List Build → List Package
  | [] => []
  | b :: rest =>
    match b.make baseline with
    | .ok p => p :: accepted (some p) rest
    | .error _ => accepted baseline rest

theorem make_eq_ok_iff {b : Build} {baseline : Option Package} {p : Package} :
    b.make baseline = .ok p ↔ b.manifest.compile b.settings = .ok p ∧
      ∀ old ∈ baseline, p.checkBaseline old = .ok () := by
  constructor
  · intro h
    obtain ⟨q, hcompile, h⟩ := bind_eq_ok.mp h
    obtain ⟨_, hchecked, hdone⟩ := bind_eq_ok.mp h
    cases hdone
    exact ⟨hcompile, forM_toList_eq_ok.mp hchecked⟩
  · rintro ⟨hcompile, hchecked⟩
    rw [make, hcompile, ok_bind, forM_toList_eq_ok.mpr hchecked, ok_bind]
    rfl

/-- The invocation is given the text of the baseline, if there is one. -/
def IsGiven (baseline : Option Package) (i : CommandLine.Invocation) (d : Disk) : Prop :=
  match baseline with
  | none => i.baseline = none
  | some old => ∃ path, i.baseline = some path ∧ d.read? path = some old.text

open CommandLine CommandLine.Program in
/-- A run that is given the baseline decides as the build of the manifest that it reads. -/
theorem run_resolve {i : Invocation} {d : Disk} {text : String} {m : Manifest}
    {baseline : Option Package} (hsettings : i.settings.check = .ok ())
    (htext : d.read? i.manifest = some text) (hmanifest : Manifest.ofText text = .ok m)
    (hgiven : IsGiven baseline i d) : (i.resolve.run (.ofDisk d)).1 =
      ((Build.mk m i.settings).make baseline).mapError .violation := by
  have htext' : (World.ofDisk d).disk.read? i.manifest = some text := htext
  cases baseline with
  | none =>
    have hbaseline : i.baseline = none := hgiven
    simp only [Invocation.resolve, hbaseline, hsettings, run_bind, Program.ofExcept, readFile,
      Program.run, htext', hmanifest, make]
    cases m.compile i.settings <;> rfl
  | some old =>
    obtain ⟨path, hbaseline, hold⟩ := hgiven
    have hold' : (World.ofDisk d).disk.read? path = some old.text := hold
    simp only [Invocation.resolve, hbaseline, hsettings, run_bind, Program.ofExcept, readFile,
      Program.run, htext', hmanifest, make]
    cases m.compile i.settings with
    | error v => rfl
    | ok p =>
      have hchecks : (some old).toList.forM p.checkBaseline = p.checkBaseline old := by
        show (p.checkBaseline old >>= fun _ => pure ()) = _
        cases p.checkBaseline old <;> rfl
      simp only [Program.run, hold', Package.ofText_text, ok_bind, hchecks]
      cases p.checkBaseline old <;> rfl

end Build

namespace Package

/-- The package is compiled from a manifest. -/
def IsCompiled (p : Package) : Prop := ∃ (m : Manifest) (s : Settings), m.compile s = .ok p

/-- A compiled package is accepted with the other as its baseline. -/
structure Follows (old p : Package) : Prop where
  compiled : p.IsCompiled
  accepted : p.checkBaseline old = .ok ()

/-- No two components of the package have one stability key. -/
def KeysAreDistinct (p : Package) : Prop := (p.components.map (·.guid)).Nodup

/-- A component of the package has the stability key. -/
def Carries (p : Package) (guid : String) : Prop := ∃ c ∈ p.components, c.guid = guid

variable {old p : Package}

/-- What is compiled writes its upgrade code in the one way in which GUIDs are written, so that a
package which is accepted after another has its upgrade code to the letter. -/
theorem Follows.upgradeCode (h : old.Follows p) (hold : old.IsCompiled) :
    p.product.upgradeCode = old.product.upgradeCode := by
  have hcode : ∀ {q : Package}, q.IsCompiled → ∃ space : Guid, q.product.upgradeCode = space.text := by
    rintro q ⟨m, s, hq⟩
    obtain ⟨space, hspace, -⟩ := Manifest.exists_space_of_auto hq
    exact ⟨space, hspace⟩
  obtain ⟨space, hspace⟩ := hcode h.compiled
  obtain ⟨space', hspace'⟩ := hcode hold
  have hsame := (checkBaseline_eq_ok_iff.mp h.accepted).1
  rw [hspace, hspace', Guid.sameIgnoringAsciiCase_text_iff] at hsame
  rw [hspace, hspace', hsame]

theorem eq_of_guid_eq (hp : p.KeysAreDistinct) {c d : Component} (hc : c ∈ p.components)
    (hd : d ∈ p.components) (h : c.guid = d.guid) : c = d :=
  List.inj_on_of_nodup_map hp hc hd h

/-- A key that was there before stands for the key path that it stood for. -/
theorem Follows.keyPathIdentity (h : old.Follows p) (hold : old.KeysAreDistinct) {c d : Component}
    (hc : c ∈ old.components) (hd : d ∈ p.components) (hkey : d.guid = c.guid) :
    d.keyPathIdentity = c.keyPathIdentity := by
  obtain ⟨last, hlast⟩ := exists_componentWithKey hc
  obtain ⟨hmem, hguid⟩ := componentWithKey?_eq_some hlast
  obtain rfl : last = c := eq_of_guid_eq hold hmem hc hguid
  rw [← hkey] at hlast
  exact ((checkBaseline_eq_ok_iff.mp h.accepted).2 d hd last hlast).symm

end Package

namespace Build
open Package

/-- Each package that is accepted follows the baseline of its build: the package accepted before it,
or the baseline of the series. -/
theorem isChain_accepted (baseline : Option Package) (builds : List Build) :
    (baseline.toList ++ accepted baseline builds).IsChain Follows ∧
      ∀ p ∈ accepted baseline builds, p.IsCompiled := by
  induction builds generalizing baseline with
  | nil =>
    rw [accepted, List.append_nil]
    refine ⟨?_, nofun⟩
    cases baseline with
    | none => exact .nil
    | some old => exact .singleton old
  | cons b rest ih =>
    cases hmake : b.make baseline with
    | error v =>
      rw [accepted, hmake]
      exact ih baseline
    | ok p =>
      rw [accepted, hmake]
      obtain ⟨hcompile, hchecked⟩ := make_eq_ok_iff.mp hmake
      have hp : p.IsCompiled := ⟨b.manifest, b.settings, hcompile⟩
      obtain ⟨hchain, hcompiled⟩ := ih (some p)
      refine ⟨?_, List.forall_mem_cons.mpr ⟨hp, hcompiled⟩⟩
      cases baseline with
      | none => exact hchain
      | some old => exact .cons_cons ⟨hp, hchecked old rfl⟩ hchain

section Series
variable {baseline : Option Package} {builds : List Build}

/-- A package follows the one accepted before it. -/
theorem follows_of_getElem? {j : Nat} {old p : Package}
    (hold : (accepted baseline builds)[j]? = some old)
    (hp : (accepted baseline builds)[j + 1]? = some p) : old.Follows p := by
  obtain ⟨hlt, rfl⟩ := List.getElem?_eq_some_iff.mp hp
  obtain ⟨hlt', rfl⟩ := List.getElem?_eq_some_iff.mp hold
  have hchain := (List.isChain_append.mp (isChain_accepted baseline builds).1).2.1
  exact List.isChain_iff_getElem.mp hchain j hlt

theorem exists_accepted {i j : Nat} {q : Package} (hij : i ≤ j)
    (hq : (accepted baseline builds)[j]? = some q) :
    ∃ p, (accepted baseline builds)[i]? = some p := by
  obtain ⟨hlt, -⟩ := List.getElem?_eq_some_iff.mp hq
  exact ⟨_, List.getElem?_eq_getElem (Nat.lt_of_le_of_lt hij hlt)⟩

/-- From one accepted package to a later one the upgrade code is kept. -/
theorem upgradeCode_accepted {i j : Nat} (hij : i ≤ j) {p q : Package}
    (hp : (accepted baseline builds)[i]? = some p) (hq : (accepted baseline builds)[j]? = some q) :
    q.product.upgradeCode = p.product.upgradeCode := by
  induction j, hij using Nat.le_induction generalizing q with
  | base =>
    rw [hp] at hq
    rw [Option.some.inj hq]
  | succ j hij ih =>
    obtain ⟨r, hr⟩ := exists_accepted (Nat.le_succ j) hq
    have hcompiled := (isChain_accepted baseline builds).2 r (List.mem_of_getElem? hr)
    rw [(follows_of_getElem? hr hq).upgradeCode hcompiled, ih hr]

/-- From one accepted package to a later one a key that is never dropped stands for one key path. -/
theorem keyPathIdentity_accepted
    (hdistinct : ∀ p ∈ accepted baseline builds, p.KeysAreDistinct) {guid : String} {i j : Nat}
    (hij : i ≤ j) {p q : Package} (hp : (accepted baseline builds)[i]? = some p)
    (hq : (accepted baseline builds)[j]? = some q)
    (hcarried : ∀ k r, i ≤ k → k ≤ j → (accepted baseline builds)[k]? = some r → r.Carries guid)
    {c d : Component} (hc : c ∈ p.components) (hd : d ∈ q.components) (hcguid : c.guid = guid)
    (hdguid : d.guid = guid) : d.keyPathIdentity = c.keyPathIdentity := by
  induction j, hij using Nat.le_induction generalizing q d with
  | base =>
    rw [hp] at hq
    obtain rfl := Option.some.inj hq
    have hkeys := hdistinct p (List.mem_of_getElem? hp)
    rw [eq_of_guid_eq hkeys hd hc (hdguid.trans hcguid.symm)]
  | succ j hij ih =>
    obtain ⟨r, hr⟩ := exists_accepted (Nat.le_succ j) hq
    obtain ⟨e, he, heguid⟩ := hcarried j r hij (Nat.le_succ j) hr
    have hkeys := hdistinct r (List.mem_of_getElem? hr)
    have hstep := (follows_of_getElem? hr hq).keyPathIdentity hkeys he hd
      (hdguid.trans heguid.symm)
    have hbefore := ih hr (fun k r hik hkj => hcarried k r hik (Nat.le_succ_of_le hkj)) he heguid
    exact hstep.trans hbefore

end Series

/-- In every series of builds, of whatever length and with whatever builds refused in between, all
accepted packages have one upgrade code; and where no accepted package has a key twice, a key that all
of them carry from one place of the series to another stands for one key path at both. -/
theorem accepted_keeps (baseline : Option Package) (builds : List Build) :
    (∀ p ∈ accepted baseline builds, ∀ q ∈ accepted baseline builds,
      p.product.upgradeCode = q.product.upgradeCode) ∧
    ((∀ p ∈ accepted baseline builds, p.KeysAreDistinct) →
      ∀ (i j : Nat) (p q : Package), i < j → (accepted baseline builds)[i]? = some p →
        (accepted baseline builds)[j]? = some q → ∀ guid : String,
          (∀ k r, i ≤ k → k ≤ j → (accepted baseline builds)[k]? = some r → r.Carries guid) →
            ∀ c ∈ p.components, ∀ d ∈ q.components, c.guid = guid → d.guid = guid →
              d.keyPathIdentity = c.keyPathIdentity) := by
  refine ⟨fun p hp q hq => ?_, ?_⟩
  · obtain ⟨i, hi⟩ := List.mem_iff_getElem?.mp hp
    obtain ⟨j, hj⟩ := List.mem_iff_getElem?.mp hq
    rcases Nat.le_total i j with hij | hij
    · exact (upgradeCode_accepted hij hi hj).symm
    · exact upgradeCode_accepted hij hj hi
  · intro hdistinct i j p q hij hp hq guid hcarried c hc d hd hcguid hdguid
    exact keyPathIdentity_accepted hdistinct (Nat.le_of_lt hij) hp hq hcarried hc hd hcguid hdguid

/-- The stability keys that an editor declares for its program and for its help file. -/
def declaredKeys : String × String :=
  ("\x7b6BA7B810-9DAD-11D1-80B4-00C04FD430C8\x7d", "\x7b6BA7B811-9DAD-11D1-80B4-00C04FD430C8\x7d")

/-- A build of the editor with an upgrade code and a name for its program. -/
def edition (upgradeCode version program : String) : Build where
  manifest :=
    { Manifest.relocated with
      product := { Manifest.relocated.product with upgradeCode }
      components := [
        { id := "Editor"
          directory := "PROGRAMFOLDER"
          guid := declaredKeys.1
          win64 := none
          items := [.file ⟨"Editor", "bin/acme.exe", some program, true⟩]
          integrations := [] },
        { id := "Manual"
          directory := "PROGRAMFOLDER"
          guid := declaredKeys.2
          win64 := none
          items := [.file ⟨"Manual", "doc/acme.chm", none, true⟩]
          integrations := [] }] }
  settings := ⟨some "x86", version, "release", none, none, none, none, none⟩

/-- Three builds of which the second, with another program under the same key, is refused. -/
def editions : List Build :=
  [edition "3f2504e0-4f89-11d3-9a0c-0305e82c3301" "1.0.0" "acme.exe",
    edition "3f2504e0-4f89-11d3-9a0c-0305e82c3301" "1.1.0" "editor.exe",
    edition "3F2504E0-4F89-11D3-9A0C-0305E82C3301" "2.0.0" "Acme.exe"]

/-- The upgrade code of a package, and the keys and identities of its components. -/
def outline (p : Package) : String × List (String × String) :=
  (p.product.upgradeCode, p.components.map fun c => (c.guid, c.keyPathIdentity))

/-- What both accepted editions come to. -/
def outlined : String × List (String × String) :=
  (Manifest.copySpace.text,
    [(declaredKeys.1, Manifest.programIdentity), (declaredKeys.2, Manifest.helpIdentity)])

theorem outline_editions : (accepted none editions).map outline = [outlined, outlined] := by
  decide +kernel

theorem accepted_keeps_editions : ∃ p q, accepted none editions = [p, q] ∧
    p.product.upgradeCode = q.product.upgradeCode ∧
      ∃ c ∈ p.components, ∃ d ∈ q.components, c.guid = declaredKeys.1 ∧ d.guid = declaredKeys.1 ∧
        d.keyPathIdentity = c.keyPathIdentity := by
  obtain ⟨p, rest, hall, hp, hrest⟩ := List.map_eq_cons_iff.mp outline_editions
  obtain ⟨q, rfl, hq⟩ := List.map_eq_singleton_iff.mp hrest
  have hkeys : ∀ {p : Package}, outline p = outlined →
      p.components.map (·.guid) = [declaredKeys.1, declaredKeys.2] := by
    intro p hp
    have hcomponents := congrArg (List.map Prod.fst) (Prod.mk.inj hp).2
    rwa [List.map_map] at hcomponents
  have hcarries : ∀ {p : Package}, outline p = outlined → p.Carries declaredKeys.1 := by
    intro p hp
    have hmem : declaredKeys.1 ∈ p.components.map (·.guid) := by
      rw [hkeys hp]
      exact List.mem_cons_self
    exact List.mem_map.mp hmem
  have houtline : ∀ p ∈ accepted none editions, outline p = outlined := by
    intro r hr
    rw [hall] at hr
    rcases (by simpa using hr : r = p ∨ r = q) with rfl | rfl
    · exact hp
    · exact hq
  have hdistinct : ∀ p ∈ accepted none editions, p.KeysAreDistinct := by
    intro p hp
    rw [KeysAreDistinct, hkeys (houtline p hp)]
    decide
  obtain ⟨hcode, hpaths⟩ := accepted_keeps none editions
  obtain ⟨c, hc, hcguid⟩ := hcarries hp
  obtain ⟨d, hd, hdguid⟩ := hcarries hq
  refine ⟨p, q, hall, hcode p (by simp [hall]) q (by simp [hall]), c, hc, d, hd, hcguid, hdguid, ?_⟩
  refine hpaths hdistinct 0 1 p q (by decide) (by simp [hall]) (by simp [hall]) declaredKeys.1 ?_
    c hc d hd hcguid hdguid
  intro k r _ _ hr
  exact hcarries (houtline r (List.mem_of_getElem? hr))

end Build
end Installer
