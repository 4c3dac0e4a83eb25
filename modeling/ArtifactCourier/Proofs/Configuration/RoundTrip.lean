/-
  ArtifactCourier.Proofs.Configuration.RoundTrip
  ──────────────────────────────────────
  **A configuration that was saved is read back.**

  The document of a configuration is a mapping of its fields, so that its tokens and its
  tree are known, and every field is read from the node that was made of it.  Only paths
  can keep a configuration from being written: a path is bytes, and a document is text.

    • `toYaml_of_hasTextPaths`, `toYaml_of_not_hasTextPaths` — which configurations can be
      written,
    • `optionOf?_optionalValue` — nothing and a text that looks like it are kept apart,
    • `ofYaml?_toYaml` — the document of a configuration describes it,
    • `saveYamlFile_roundTrip` — saved to a file and read from it.
-/
import ArtifactCourier.Config.Load
import ArtifactCourier.FileSystem.Fresh
import ArtifactCourier.Proofs.Configuration.Fields
import ArtifactCourier.Proofs.FileSystem.Rewrite
import ArtifactCourier.Proofs.Path
import ArtifactCourier.Proofs.Perform
import ArtifactCourier.Proofs.Yaml.Tree
import Mathlib

namespace ArtifactCourier.Config

open Yaml

/-! ## §1. Paths as text. -/

/-- All paths of a configuration are well-formed UTF-8. -/
def HasTextPaths (c : Config) : Prop :=
  (∀ p ∈ c.dirs, p.text.isText) ∧ ∀ p ∈ c.workDir, p.text.isText

theorem pathText_of_isText {p : Path} (h : p.text.isText) :
    ∃ s, pathText p = .ok s ∧ Path.ofString s = p := by
  obtain ⟨s, hs⟩ := Option.isSome_iff_exists.1 h
  refine ⟨s, by rw [pathText, hs], ?_⟩
  show (⟨RawText.ofString s⟩ : Path) = p
  rw [RawText.ofString_of_toString? hs]

theorem pathText_of_not_isText {p : Path} (h : ¬p.text.isText) :
    pathText p = .error ⟨.serializeConfig, [.pathNotUtf8]⟩ := by
  have none : p.text.toString? = none := by simpa [RawText.isText] using h
  rw [pathText, none]

/-- The texts of paths stand for the paths. -/
theorem mapM_pathText_of_isText {dirs : List Path} (h : ∀ p ∈ dirs, p.text.isText) :
    ∃ names, dirs.mapM pathText = .ok names ∧ names.map Path.ofString = dirs := by
  induction dirs with
  | nil => exact ⟨[], rfl, rfl⟩
  | cons p dirs ih =>
    obtain ⟨s, hs, same⟩ := pathText_of_isText (h p List.mem_cons_self)
    obtain ⟨names, hnames, sames⟩ := ih fun q hq => h q (List.mem_cons_of_mem _ hq)
    refine ⟨s :: names, ?_, by rw [List.map_cons, same, sames]⟩
    rw [List.mapM_cons, hs, hnames]
    rfl

/-- One path that is no text is enough for a refusal. -/
theorem mapM_pathText_of_not_isText {dirs : List Path} {p : Path} (hp : p ∈ dirs)
    (h : ¬p.text.isText) :
    dirs.mapM pathText = .error ⟨.serializeConfig, [.pathNotUtf8]⟩ := by
  induction dirs with
  | nil => cases hp
  | cons q dirs ih =>
    rw [List.mapM_cons]
    by_cases text : q.text.isText
    · have later : p ∈ dirs := by
        rcases List.mem_cons.1 hp with rfl | hp
        · exact absurd text h
        · exact hp
      obtain ⟨s, hs, -⟩ := pathText_of_isText text
      rw [hs, ih later]
      rfl
    · rw [pathText_of_not_isText text]
      rfl

/-! ## §2. The document. -/

theorem Field.isName_name (f : Field) : Printer.isName f.name.toList := by
  cases f <;> decide

/-- The entries of a configuration whose paths are spelled by these texts. -/
def writtenEntries (c : Config) (dirs : List String) (workDir : Option String) :
    List (Field × Value) :=
  [(.bucket, .text c.bucket), (.tarPrefixes, .list c.tarPrefixes),
    (.plainPrefixes, .list c.plainPrefixes), (.dirs, .list dirs), (.uploadDir, .text c.uploadDir),
    (.region, optionalValue c.region), (.profile, optionalValue c.profile),
    (.workDir, optionalValue workDir)]

/-- **A configuration whose paths are text has a document.** -/
theorem toYaml_of_hasTextPaths {c : Config} (h : c.HasTextPaths) :
    ∃ dirs workDir, dirs.map Path.ofString = c.dirs ∧ workDir.map Path.ofString = c.workDir ∧
      c.toYaml = .ok (Printer.document
        ((c.writtenEntries dirs workDir).map fun e => (e.1.name, e.2))) := by
  obtain ⟨dirs, hdirs, same⟩ := mapM_pathText_of_isText h.1
  have spelled : ∃ workDir, c.workDir.mapM pathText = .ok workDir ∧
      workDir.map Path.ofString = c.workDir := by
    cases hw : c.workDir with
    | none => exact ⟨none, rfl, rfl⟩
    | some p =>
      obtain ⟨s, hs, same⟩ := pathText_of_isText (h.2 p hw)
      refine ⟨some s, ?_, by rw [Option.map_some, same]⟩
      rw [Option.mapM_some, hs]
      rfl
  obtain ⟨workDir, hworkDir, same'⟩ := spelled
  refine ⟨dirs, workDir, same, same', ?_⟩
  rw [toYaml, toEntries, hdirs, hworkDir]
  rfl

/-- **Without text for a path there is none.** -/
theorem toYaml_of_not_hasTextPaths {c : Config} (h : ¬c.HasTextPaths) :
    c.toYaml = .error ⟨.serializeConfig, [.pathNotUtf8]⟩ := by
  rw [toYaml, toEntries]
  by_cases texts : ∀ p ∈ c.dirs, p.text.isText
  · obtain ⟨dirs, hdirs, -⟩ := mapM_pathText_of_isText texts
    have noText : ∃ p ∈ c.workDir, ¬p.text.isText := by
      simp only [HasTextPaths, not_and] at h
      simpa using h texts
    obtain ⟨p, hp, noText⟩ := noText
    rw [hdirs, Option.mem_def.1 hp, Option.mapM_some, pathText_of_not_isText noText]
    rfl
  · obtain ⟨p, hp, noText⟩ : ∃ p ∈ c.dirs, ¬p.text.isText := by simpa using texts
    rw [mapM_pathText_of_not_isText hp noText]
    rfl

/-! ## §3. Reading it. -/

section Reading

variable {d : Document}

theorem textOf?_textNode (s : String) : textOf? d (textNode s) = some s := by
  simp [textOf?, textNode, Document.resolve]

theorem listOf?_node (items : List String) : listOf? d (Value.list items).node = some items := by
  show (items.map textNode).mapM (textOf? d) = some items
  induction items with
  | nil => rfl
  | cons s items ih =>
    rw [List.map_cons, List.mapM_cons, textOf?_textNode, ih]
    rfl

/-- **Nothing and a text that looks like it are kept apart.** -/
theorem optionOf?_optionalValue (o : Option String) :
    optionOf? d (optionalValue o).node = some o := by
  cases o with
  | none => rfl
  | some s =>
    show optionOf? d (textNode s) = some (some s)
    unfold optionOf? textNode Document.resolve
    have h := written_ofText s.toList
    generalize Style.ofText s.toList = style at h
    cases h with
    | plain text =>
      have noNull : Resolution.isNull s.toList = false := by
        simp only [Resolution.needsQuotes, Bool.or_eq_false_iff] at text
        exact text.1.1.1.1
      simp [noNull]
    | singleQuoted => simp
    | literal => simp
    | doubleQuoted => simp

/-- An entry that was written sets its field. -/
theorem setFields_written {seen : List Field} {f : Field} (new : f ∉ seen) (value : Value)
    (rest : List (Yaml.Node × Yaml.Node)) (c : Config) :
    setFields d seen (entryNode (f.name, value) :: rest) c
      = (setField d f value.node c).bind (setFields d (f :: seen) rest) := by
  have named : textOf? d (.scalar none .plain f.name.toList) = some f.name := by
    simp [textOf?, Document.resolve]
  rw [entryNode, setFields, named]
  simp only [Option.bind_eq_bind, Option.bind_some]
  rw [Field.ofName?_eq_some_iff.2 rfl]
  simp only [if_neg new]

end Reading

/-- **All fields are set as they were written.** -/
theorem setFields_writtenEntries {d : Document} (c : Config) {dirs : List String}
    {workDir : Option String} (hd : dirs.map Path.ofString = c.dirs)
    (hw : workDir.map Path.ofString = c.workDir) :
    setFields d [] (((c.writtenEntries dirs workDir).map fun e => (e.1.name, e.2)).map entryNode)
      default = some c := by
  have text : ∀ s, textOf? d (Value.text s).node = some s := textOf?_textNode
  simp only [writtenEntries, List.map_cons, List.map_nil]
  iterate 8
    rw [setFields_written (by decide)]
    simp only [setField, text, listOf?_node, optionOf?_optionalValue, Option.map_some,
      Option.bind_some, hd, hw]
  rfl

/-- **The document of a configuration describes it.** -/
theorem ofYaml?_toYaml {c : Config} {text : String} (h : c.toYaml = .ok text) :
    ofYaml? text = some c := by
  by_cases texts : c.HasTextPaths
  · obtain ⟨dirs, workDir, hd, hw, written⟩ := toYaml_of_hasTextPaths texts
    rw [h] at written
    cases written
    have names : ∀ e ∈ (c.writtenEntries dirs workDir).map fun e => (e.1.name, e.2),
        Printer.isName e.1.toList := by
      intro e he
      obtain ⟨⟨f, value⟩, -, rfl⟩ := List.mem_map.1 he
      exact f.isName_name
    rw [ofYaml?, tokens?_document (by simp [writtenEntries]) names, Option.bind_eq_bind,
      Option.bind_some, document?_documentTokens]
    exact setFields_writtenEntries c hd hw
  · rw [toYaml_of_not_hasTextPaths texts] at h
    cases h

/-! ## §4. The file. -/

/-- **A configuration that is saved is read back as it was**, all its fields, whatever text they
hold; where a path is no text it is refused, and nothing is changed. -/
theorem saveYamlFile_roundTrip {σ : Type} (c : Config) (path : Path) (s : Session σ) :
    (c.HasTextPaths → s.disk.CanWriteFile path →
      ∃ s', (c.saveYamlFile path).perform s = (.ok (), s') ∧
        (ofYamlFile path).perform s'.disk = (.ok c, s'.disk)) ∧
    (¬c.HasTextPaths → ∃ f, (c.saveYamlFile path).perform s = (.error f, s)) := by
  constructor
  · intro texts writable
    obtain ⟨dirs, workDir, -, -, written⟩ := toYaml_of_hasTextPaths texts
    generalize Printer.document _ = text at written
    obtain ⟨disk, stored, bytes⟩ := FileSystem.bytesAt_writeFile writable text.toUTF8
    have saved : (Disk.change (.writeConfig path) fun disk =>
        (disk.writeFile path text.toUTF8).map ((), ·)).perform s.disk = (.ok (), disk) := by
      rw [Disk.perform_change, stored]
      rfl
    have ended : (c.saveYamlFile path).perform s = (.ok (), { s with
        disk := disk
        events := s.events.push (.log (.savedConfig path)) }) := by
      unfold saveYamlFile
      rw [written]
      dsimp only
      rw [Work.perform_bind, Work.perform_onDisk, saved]
      rfl
    exact ⟨_, ended, perform_ofYamlFile bytes (ofYaml?_toYaml written)⟩
  · intro noText
    refine ⟨⟨.serializeConfig, [.pathNotUtf8]⟩, ?_⟩
    unfold saveYamlFile
    rw [toYaml_of_not_hasTextPaths noText]
    rfl

/-- A configuration with texts that look like something else. -/
def trickyConfig : Config where
  bucket := "null"
  tarPrefixes := ["", "- a", "1e3", "it's: #1"]
  plainPrefixes := []
  dirs := [Path.ofString "a b", Path.ofString ""]
  uploadDir := "  two\nlines \n\n"
  region := some "null"
  profile := some ""
  workDir := none

/-- It is saved in a new file and read back; with a path that is no text it is refused. -/
theorem trickyConfig_roundTrip :
    (∃ s', (trickyConfig.saveYamlFile (Path.ofString "/c.yaml")).perform
          (.start FileSystem.devices () fun _ => ⟨[]⟩) = (.ok (), s') ∧
        (ofYamlFile (Path.ofString "/c.yaml")).perform s'.disk = (.ok trickyConfig, s'.disk)) ∧
      ∃ f, ({ trickyConfig with dirs := [⟨⟨[0xFF]⟩⟩] }.saveYamlFile
            (Path.ofString "/c.yaml")).perform (.start FileSystem.devices () fun _ => ⟨[]⟩)
        = (.error f, .start FileSystem.devices () fun _ => ⟨[]⟩) := by
  have texts : trickyConfig.HasTextPaths := by
    refine ⟨fun p hp => ?_, nofun⟩
    obtain ⟨s, rfl⟩ : ∃ s, p = Path.ofString s := by
      rcases List.mem_cons.1 hp with rfl | hp
      · exact ⟨_, rfl⟩
      · exact ⟨_, List.mem_singleton.1 hp⟩
    exact Option.isSome_iff_exists.2 ⟨s, RawText.toString?_ofString s⟩
  have writable : FileSystem.devices.CanWriteFile (Path.ofString "/c.yaml") :=
    ⟨4, (FileSystem.devices.create FileSystem.root (RawText.ofString "c.yaml") (.file .empty)).2,
      .empty, by cbv, by cbv⟩
  have noText : ¬({ trickyConfig with dirs := [⟨⟨[0xFF]⟩⟩] } : Config).HasTextPaths := by
    intro h
    exact absurd (h.1 _ List.mem_cons_self) (by decide +kernel)
  exact ⟨(saveYamlFile_roundTrip trickyConfig _ _).1 texts writable,
    (saveYamlFile_roundTrip _ _ _).2 noText⟩

end ArtifactCourier.Config
