/-
  ArtifactCourier.Proofs.Configuration.Fields
  ──────────────────────────────────────
  **Reading a configuration, one field at a time.**

  The entries of a document are read in order, and each of them sets one field or none.  As a
  field is never set twice, the entry that names it decides about it alone, whatever stands
  before and behind that entry.

    • `setField_same` — setting a field leaves the other fields as they were,
    • `setFields_same_of_seen` — a field that was set is not touched again,
    • `setFields_same_of_unnamed` — nor is a field that no entry names,
    • `setFields_of_mem` — a field that an entry names is as this entry says,
    • `perform_ofYamlFile` — a file that describes a configuration is read as that one.
-/
import ArtifactCourier.Config.Load
import ArtifactCourier.Proofs.Perform

namespace ArtifactCourier.Config

open Yaml

/-! ## §1. One field. -/

/-- Two configurations say the same about a field. -/
def Field.Same : Field → Config → Config → Prop
  | bucket, a, b => a.bucket = b.bucket
  | tarPrefixes, a, b => a.tarPrefixes = b.tarPrefixes
  | plainPrefixes, a, b => a.plainPrefixes = b.plainPrefixes
  | dirs, a, b => a.dirs = b.dirs
  | uploadDir, a, b => a.uploadDir = b.uploadDir
  | region, a, b => a.region = b.region
  | profile, a, b => a.profile = b.profile
  | workDir, a, b => a.workDir = b.workDir

namespace Field

theorem Same.refl (f : Field) (c : Config) : f.Same c c := by
  cases f <;> rfl

theorem Same.trans {f : Field} {a b c : Config} (hab : f.Same a b) (hbc : f.Same b c) :
    f.Same a c := by
  cases f <;> exact Eq.trans hab hbc

/-- A field is found by its name, and nothing else is. -/
theorem ofName?_eq_some_iff {name : List Char} {f : Field} :
    ofName? name = some f ↔ name = f.name.toList := by
  constructor
  · intro h
    have found := List.find?_some h
    exact (beq_iff_eq.1 found).symm
  · intro given
    subst given
    cases f <;> decide

end Field

/-- **Setting a field leaves the other fields as they were.** -/
theorem setField_same {d : Document} {f g : Field} {n : Yaml.Node} {c c' : Config}
    (h : setField d g n c = some c') (other : f ≠ g) : f.Same c c' := by
  cases g <;>
    simp only [setField, Option.map_eq_some_iff] at h <;>
    obtain ⟨value, -, rfl⟩ := h <;>
    cases f <;>
    first
      | exact absurd rfl other
      | rfl

/-! ## §2. The entries of a document. -/

/-- An entry's key names a field. -/
def Names (d : Document) (key : Yaml.Node) (f : Field) : Prop := textOf? d key = some f.name

/-- Reading one more entry: either it names no field and changes nothing, or it names one that
was not set yet and sets it. -/
theorem setFields_cons {d : Document} {seen : List Field} {key value : Yaml.Node}
    {entries : List (Yaml.Node × Yaml.Node)} {c c' : Config}
    (h : setFields d seen ((key, value) :: entries) c = some c') :
    ((∀ f, ¬ Names d key f) ∧ setFields d seen entries c = some c') ∨
      ∃ g c₁, Names d key g ∧ g ∉ seen ∧ setField d g value c = some c₁ ∧
        setFields d (g :: seen) entries c₁ = some c' := by
  simp only [setFields, Option.bind_eq_bind, Option.bind_eq_some_iff] at h
  obtain ⟨name, hname, h⟩ := h
  cases hfield : Field.ofName? name.toList with
  | none =>
    left
    rw [hfield] at h
    refine ⟨?_, h⟩
    intro f hf
    have same : name = f.name := Option.some.inj (hname.symm.trans hf)
    have found := Field.ofName?_eq_some_iff.2 (congrArg String.toList same)
    rw [hfield] at found
    cases found
  | some g =>
    right
    rw [hfield] at h
    dsimp only at h
    split at h
    · cases h
    · next fresh =>
      obtain ⟨c₁, hset, hrest⟩ := Option.bind_eq_some_iff.1 h
      refine ⟨g, c₁, ?_, fresh, hset, hrest⟩
      have same := String.toList_inj.1 (Field.ofName?_eq_some_iff.1 hfield)
      rw [Names, hname, same]

/-- A key names one field at most. -/
theorem Names.unique {d : Document} {key : Yaml.Node} {f g : Field} (hf : Names d key f)
    (hg : Names d key g) : f = g := by
  have same : f.name = g.name := Option.some.inj (hf.symm.trans hg)
  have found := Field.ofName?_eq_some_iff.2 (congrArg String.toList same)
  rw [Field.ofName?_eq_some_iff.2 rfl] at found
  exact Option.some.inj found.symm |>.symm

/-- A field that was set is not touched again. -/
theorem setFields_same_of_seen {d : Document} {f : Field} :
    ∀ {entries : List (Yaml.Node × Yaml.Node)} {seen : List Field} {c c' : Config},
      setFields d seen entries c = some c' → f ∈ seen → f.Same c c' := by
  intro entries
  induction entries with
  | nil =>
    intro seen c c' h _
    cases h
    exact Field.Same.refl f c
  | cons entry entries ih =>
    intro seen c c' h hf
    obtain ⟨-, hrest⟩ | ⟨g, c₁, -, fresh, hset, hrest⟩ := setFields_cons h
    · exact ih hrest hf
    · -- What is set now was not set before, so it is another field.
      have other : f ≠ g := fun hfg => fresh (hfg ▸ hf)
      exact (setField_same hset other).trans (ih hrest (List.mem_cons_of_mem g hf))

/-- A field that no entry names stays as it was. -/
theorem setFields_same_of_unnamed {d : Document} {f : Field} :
    ∀ {entries : List (Yaml.Node × Yaml.Node)} {seen : List Field} {c c' : Config},
      setFields d seen entries c = some c' → (∀ e ∈ entries, ¬ Names d e.1 f) → f.Same c c' := by
  intro entries
  induction entries with
  | nil =>
    intro seen c c' h _
    cases h
    exact Field.Same.refl f c
  | cons entry entries ih =>
    intro seen c c' h unnamed
    have later : ∀ e ∈ entries, ¬ Names d e.1 f := fun e he => unnamed e (List.mem_cons_of_mem _ he)
    obtain ⟨-, hrest⟩ | ⟨g, c₁, hname, -, hset, hrest⟩ := setFields_cons h
    · exact ih hrest later
    · have other : f ≠ g := by
        intro given
        subst given
        exact unnamed entry List.mem_cons_self hname
      exact (setField_same hset other).trans (ih hrest later)

/-- **A field that an entry names is as this entry says.** -/
theorem setFields_of_mem {d : Document} {f : Field} {key value : Yaml.Node} :
    ∀ {entries : List (Yaml.Node × Yaml.Node)} {seen : List Field} {c c' : Config},
      setFields d seen entries c = some c' → (key, value) ∈ entries → Names d key f →
      ∃ c₁ c₂, setField d f value c₁ = some c₂ ∧ f.Same c₂ c' := by
  intro entries
  induction entries with
  | nil =>
    intro seen c c' _ hmem
    cases hmem
  | cons entry entries ih =>
    intro seen c c' h hmem hname
    rcases List.mem_cons.1 hmem with rfl | hmem
    · -- The entry is read now, and no later one may name its field again.
      obtain ⟨unnamed, -⟩ | ⟨g, c₁, hg, -, hset, hrest⟩ := setFields_cons h
      · exact absurd hname (unnamed f)
      · obtain rfl := hname.unique hg
        exact ⟨c, c₁, hset, setFields_same_of_seen hrest List.mem_cons_self⟩
    · -- The entry is read later, whatever is read now.
      obtain ⟨-, hrest⟩ | ⟨g, c₁, -, -, -, hrest⟩ := setFields_cons h
      · exact ih hrest hmem hname
      · exact ih hrest hmem hname

/-! ## §3. The file. -/

/-- A configuration that was read from a file is what the text of that file describes. -/
theorem ofYamlFile_eq_ok {path : Path} {fs fs' : FileSystem} {c : Config}
    (h : (ofYamlFile path).perform fs = (.ok c, fs')) :
    ∃ bytes text, fs.bytesAt path = .ok bytes ∧ String.fromUTF8? bytes = some text
      ∧ ofYaml? text = some c := by
  unfold ofYamlFile readText at h
  obtain ⟨text, fs₁, hread, h⟩ := Disk.perform_bind_eq_ok.1 h
  obtain ⟨bytes, fs₂, hlook, hread⟩ := Disk.perform_bind_eq_ok.1 hread
  obtain ⟨hbytes, -⟩ := Disk.perform_look_eq_ok.1 hlook
  refine ⟨bytes, text, hbytes, ?_⟩
  split at hread
  · next text' htext =>
    cases hread
    refine ⟨htext, ?_⟩
    split at h
    · next c' hc =>
      cases h
      exact hc
    · cases h
  · cases hread

/-- The file that holds a configuration is read as that configuration. -/
theorem perform_ofYamlFile {path : Path} {disk : FileSystem} {c : Config} {text : String}
    (bytes : disk.bytesAt path = .ok text.toUTF8) (h : ofYaml? text = some c) :
    (ofYamlFile path).perform disk = (.ok c, disk) := by
  have decoded : String.fromUTF8? text.toUTF8 = some text := by
    simp [String.fromUTF8?, text.isValidUTF8, String.fromUTF8]
  unfold ofYamlFile readText
  rw [Disk.perform_bind, Disk.perform_bind, Disk.perform_look, bytes]
  dsimp only
  rw [decoded]
  dsimp only
  rw [Disk.perform_pure]
  dsimp only
  rw [h]
  rfl

end ArtifactCourier.Config
