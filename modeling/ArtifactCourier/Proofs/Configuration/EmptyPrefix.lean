/-
  ArtifactCourier.Proofs.Configuration.EmptyPrefix
  ──────────────────────────────────────
  **Where an empty prefix comes from.**

  An empty prefix would select every file.  The defaults have none, and a comma list on the
  command line drops empty items.  A configuration file is read as it stands: a list in it may
  hold the empty text, and then the configuration of the run does, unless the option for that
  list is given.

    • `mem_splitList_ne_empty` — no item of a comma list is empty,
    • `ofYaml?_empty_iff` — an empty prefix in a file's configuration is listed in the file,
    • `load_empty_prefix_iff` — exactly when the configuration of a run has an empty prefix.
-/
import Mathlib
import ArtifactCourier.Candidate
import ArtifactCourier.Config.Load
import ArtifactCourier.Proofs.Configuration.Fields
import ArtifactCourier.Proofs.Perform

namespace ArtifactCourier.Config

open Yaml

/-! ## §1. The two lists of prefixes. -/

/-- The lists of prefixes that a configuration has. -/
inductive PrefixKind where
  /-- Files that are also published compressed. -/
  | tar
  /-- Files that are published as they are. -/
  | plain
deriving DecidableEq, Repr

namespace PrefixKind

/-- The prefixes of a kind. -/
def prefixes : PrefixKind → Config → List String
  | tar, c => c.tarPrefixes
  | plain, c => c.plainPrefixes

/-- The field of a document that lists them. -/
def field : PrefixKind → Field
  | tar => .tarPrefixes
  | plain => .plainPrefixes

/-- The value of the option that lists them. -/
def option? : PrefixKind → CommandLine.Options → Option String
  | tar, o => o.prefixToTar
  | plain, o => o.plainPrefix

/-- Two configurations say the same about the field if they have the same prefixes. -/
theorem same_field_iff {kind : PrefixKind} {a b : Config} :
    kind.field.Same a b ↔ kind.prefixes a = kind.prefixes b := by
  cases kind <;> rfl

/-- Setting the field gives the prefixes that the value lists. -/
theorem listOf?_of_setField {kind : PrefixKind} {d : Document} {n : Yaml.Node} {c c' : Config}
    (h : setField d kind.field n c = some c') : listOf? d n = some (kind.prefixes c') := by
  cases kind <;>
    obtain ⟨items, hitems, rfl⟩ := Option.map_eq_some_iff.1 h <;>
    exact hitems

/-- The prefixes are those of the option, if it is given. -/
theorem prefixes_overlay (kind : PrefixKind) (c : Config) (o : CommandLine.Options) :
    kind.prefixes (c.overlay o) = ((kind.option? o).map Text.splitList).getD (kind.prefixes c) := by
  cases kind <;> rfl

/-- No built-in prefix is empty. -/
theorem empty_notMem_default (kind : PrefixKind) : "" ∉ kind.prefixes default := by
  cases kind <;> decide

end PrefixKind

/-! ## §2. What lists an empty prefix. -/

/-- No item of a comma list is empty. -/
theorem mem_splitList_ne_empty {value item : String} (h : item ∈ Text.splitList value) :
    item ≠ "" := by
  obtain ⟨cs, hcs, rfl⟩ := List.mem_map.1 h
  have nonempty := (List.mem_filter.1 hcs).2
  intro hempty
  have hnil : cs = [] := by simpa using congrArg String.toList hempty
  rw [hnil] at nonempty
  cases nonempty

/-- A text lists the empty text under a field. -/
def ListsEmpty (text : String) (f : Field) : Prop :=
  ∃ tokens d entries key value items,
    tokens? text.toList = some tokens ∧ document? tokens = some (some d)
      ∧ d.root = .mapping entries ∧ (key, value) ∈ entries ∧ Names d key f
      ∧ listOf? d value = some items ∧ "" ∈ items

/-- The configuration file that options name lists the empty text under a field. -/
def FileListsEmpty (o : CommandLine.Options) (disk : FileSystem) (f : Field) : Prop :=
  ∃ path bytes text, o.config = some path ∧ disk.bytesAt path = .ok bytes
    ∧ String.fromUTF8? bytes = some text ∧ ListsEmpty text f

/-- An empty prefix that the entries of a document bring in is listed by one of them. -/
theorem setFields_empty_iff {kind : PrefixKind} {d : Document}
    {entries : List (Yaml.Node × Yaml.Node)} {c : Config}
    (h : setFields d [] entries default = some c) :
    "" ∈ kind.prefixes c ↔
      ∃ key value items, (key, value) ∈ entries ∧ Names d key kind.field
        ∧ listOf? d value = some items ∧ "" ∈ items := by
  constructor
  · intro hempty
    -- A field that no entry names is as in the defaults, which have no empty prefix.
    by_cases named : ∃ e ∈ entries, Names d e.1 kind.field
    · obtain ⟨⟨key, value⟩, hmem, hname⟩ := named
      obtain ⟨c₁, c₂, hset, same⟩ := setFields_of_mem h hmem hname
      rw [← PrefixKind.same_field_iff.1 same] at hempty
      exact ⟨key, value, _, hmem, hname, PrefixKind.listOf?_of_setField hset, hempty⟩
    · have same := setFields_same_of_unnamed h (fun e he hn => named ⟨e, he, hn⟩)
      rw [← PrefixKind.same_field_iff.1 same] at hempty
      exact absurd hempty kind.empty_notMem_default
  · intro given
    obtain ⟨key, value, items, hmem, hname, hitems, hempty⟩ := given
    obtain ⟨c₁, c₂, hset, same⟩ := setFields_of_mem h hmem hname
    have listed := PrefixKind.listOf?_of_setField hset
    rw [hitems, PrefixKind.same_field_iff.1 same] at listed
    rw [← Option.some.inj listed]
    exact hempty

/-- **An empty prefix in the configuration of a file is listed in the file.** -/
theorem ofYaml?_empty_iff {kind : PrefixKind} {text : String} {c : Config}
    (h : ofYaml? text = some c) : "" ∈ kind.prefixes c ↔ ListsEmpty text kind.field := by
  simp only [ofYaml?, Option.bind_eq_bind, Option.bind_eq_some_iff] at h
  obtain ⟨tokens, htokens, document, hdocument, h⟩ := h
  -- What the text is read as decides both sides.
  have lists : ListsEmpty text kind.field ↔
      ∃ d entries key value items, document = some d ∧ d.root = .mapping entries
        ∧ (key, value) ∈ entries ∧ Names d key kind.field ∧ listOf? d value = some items
        ∧ "" ∈ items := by
    constructor
    · intro given
      obtain ⟨tokens', d, entries, key, value, items, ht, hd, rest⟩ := given
      obtain rfl := Option.some.inj (htokens.symm.trans ht)
      exact ⟨d, entries, key, value, items, Option.some.inj (hdocument.symm.trans hd), rest⟩
    · intro given
      obtain ⟨d, entries, key, value, items, rfl, rest⟩ := given
      exact ⟨tokens, d, entries, key, value, items, htokens, hdocument, rest⟩
  rw [lists]
  cases document with
  | none =>
    -- A text without a document stands for the defaults.
    obtain rfl := Option.some.inj h
    constructor
    · intro hempty
      exact absurd hempty kind.empty_notMem_default
    · intro given
      obtain ⟨d, entries, key, value, items, hd, -⟩ := given
      cases hd
  | some d =>
    have h : ofDocument? d = some c := h
    unfold ofDocument? at h
    split at h
    · next entries hroot =>
      rw [setFields_empty_iff h]
      constructor
      · intro given
        obtain ⟨key, value, items, rest⟩ := given
        exact ⟨d, entries, key, value, items, rfl, hroot, rest⟩
      · intro given
        obtain ⟨d', entries', key, value, items, hd, hroot', rest⟩ := given
        obtain rfl := Option.some.inj hd
        obtain rfl := Yaml.Node.mapping.inj (hroot.symm.trans hroot')
        exact ⟨key, value, items, rest⟩
    · next hroot =>
      obtain rfl := Option.some.inj h
      constructor
      · intro hempty
        exact absurd hempty kind.empty_notMem_default
      · intro given
        obtain ⟨d', entries', key, value, items, hd, hroot', -⟩ := given
        obtain rfl := Option.some.inj hd
        rw [hroot] at hroot'
        cases hroot'
    · cases h

/-! ## §3. The configuration of a run. -/

/-- An empty prefix below the command line is listed in the file that is named. -/
theorem base_empty_iff {kind : PrefixKind} {o : CommandLine.Options} {fs fs' : FileSystem}
    {c : Config} (h : (base o).perform fs = (.ok c, fs')) :
    "" ∈ kind.prefixes c ↔ FileListsEmpty o fs kind.field := by
  unfold base at h
  cases hconfig : o.config with
  | none =>
    rw [hconfig] at h
    cases h
    constructor
    · intro hempty
      exact absurd hempty kind.empty_notMem_default
    · intro given
      obtain ⟨path, bytes, text, hpath, -⟩ := given
      rw [hconfig] at hpath
      cases hpath
  | some path =>
    rw [hconfig] at h
    obtain ⟨_, fs₁, hget, h⟩ := Disk.perform_bind_eq_ok.1 h
    cases hget
    split at h
    · obtain ⟨bytes, text, hbytes, htext, hyaml⟩ := ofYamlFile_eq_ok h
      rw [ofYaml?_empty_iff hyaml]
      constructor
      · intro lists
        exact ⟨path, bytes, text, hconfig, hbytes, htext, lists⟩
      · intro given
        obtain ⟨path', bytes', text', hpath, hbytes', htext', lists⟩ := given
        obtain rfl := Option.some.inj (hconfig.symm.trans hpath)
        obtain rfl := Except.ok.inj (hbytes.symm.trans hbytes')
        obtain rfl := Option.some.inj (htext.symm.trans htext')
        exact lists
    · cases h

/-- What was loaded is the configuration below the command line with the options over it. -/
theorem load_eq_ok {σ : Type} {o : CommandLine.Options} {s s' : Session σ} {c : Config}
    (h : (load o).perform s = (.ok c, s')) :
    ∃ b fs, (base o).perform s.disk = (.ok b, fs) ∧ c = b.overlay o := by
  unfold load at h
  obtain ⟨b, s₁, hbase, h⟩ := Work.perform_bind_eq_ok.1 h
  obtain ⟨_, s₂, -, h⟩ := Work.perform_bind_eq_ok.1 h
  rw [Work.perform_onDisk] at hbase
  cases h
  obtain ⟨hresult, -⟩ := Prod.mk.inj hbase
  refine ⟨b, ((base o).perform s.disk).2, ?_, rfl⟩
  rw [← hresult]

/-- Every name starts with the empty prefix. -/
theorem isCandidate_of_empty {kind : PrefixKind} {c : Config} (h : "" ∈ kind.prefixes c)
    (name : String) : (Classification.ofName c name).isCandidate = true := by
  have starts : ("" : String).toList <+: name.toList := List.nil_prefix
  simp only [Classification.isCandidate, Classification.ofName, Bool.or_eq_true,
    Classification.matchesAny_iff]
  cases kind with
  | tar => exact .inl ⟨"", h, starts⟩
  | plain => exact .inr ⟨"", h, starts⟩

/-- A candidate's name starts with a prefix of one of the two kinds. -/
theorem exists_prefix_of_isCandidate {c : Config} {name : String}
    (h : (Classification.ofName c name).isCandidate = true) :
    ∃ kind : PrefixKind, ∃ p ∈ kind.prefixes c, p.toList <+: name.toList := by
  simp only [Classification.isCandidate, Classification.ofName, Bool.or_eq_true,
    Classification.matchesAny_iff] at h
  rcases h with ⟨p, hp, starts⟩ | ⟨p, hp, starts⟩
  · exact ⟨.tar, p, hp, starts⟩
  · exact ⟨.plain, p, hp, starts⟩

/-- **When the configuration of a run has an empty prefix.**  It has one of a kind if and only
if the option for that kind is not given and the configuration file lists one.  With an empty
prefix every name is a candidate's; without one, a candidate's name starts with a prefix that
is not empty. -/
theorem load_empty_prefix_iff {σ : Type} {o : CommandLine.Options} {s s' : Session σ} {c : Config}
    (h : (load o).perform s = (.ok c, s')) :
    (∀ kind : PrefixKind, "" ∈ kind.prefixes c ↔
        kind.option? o = none ∧ FileListsEmpty o s.disk kind.field) ∧
      ((∃ kind : PrefixKind, "" ∈ kind.prefixes c) →
        ∀ name, (Classification.ofName c name).isCandidate = true) ∧
      ((∀ kind : PrefixKind, "" ∉ kind.prefixes c) →
        ∀ name, (Classification.ofName c name).isCandidate = true →
          ∃ kind : PrefixKind, ∃ p ∈ kind.prefixes c, p ≠ "" ∧ p.toList <+: name.toList) := by
  obtain ⟨b, fs, hbase, rfl⟩ := load_eq_ok h
  refine ⟨?_, ?_, ?_⟩
  · intro kind
    rw [PrefixKind.prefixes_overlay]
    cases hoption : kind.option? o with
    | none =>
      rw [Option.map_none, Option.getD_none, base_empty_iff hbase]
      simp
    | some value =>
      -- With the option the prefixes are the items of a comma list.
      rw [Option.map_some, Option.getD_some]
      constructor
      · intro hempty
        exact absurd rfl (mem_splitList_ne_empty hempty)
      · intro given
        obtain ⟨hnone, -⟩ := given
        cases hnone
  · intro given name
    obtain ⟨kind, hempty⟩ := given
    exact isCandidate_of_empty hempty name
  · intro nonempty name hcandidate
    obtain ⟨kind, p, hp, starts⟩ := exists_prefix_of_isCandidate hcandidate
    exact ⟨kind, p, hp, fun hempty => nonempty kind (hempty ▸ hp), starts⟩

/-! ## §4. A file that lists an empty prefix. -/

/-- A file that is there and describes a configuration gives that configuration. -/
theorem base_of_file {o : CommandLine.Options} {path : Path} {fs : FileSystem} {text : String}
    {c : Config} (hpath : o.config = some path) (there : fs.doesExist path = true)
    (hbytes : fs.bytesAt path = .ok text.toUTF8) (hyaml : ofYaml? text = some c) :
    (base o).perform fs = (.ok c, fs) := by
  unfold base
  rw [hpath]
  dsimp only
  rw [Disk.perform_bind, Disk.perform_get]
  dsimp only
  rw [if_pos there]
  exact perform_ofYamlFile hbytes hyaml

/-- A configuration with a bucket is loaded, and its warnings are logged. -/
theorem load_of_base {σ : Type} {o : CommandLine.Options} {s : Session σ} {fs : FileSystem}
    {b : Config} (hbase : (base o).perform s.disk = (.ok b, fs))
    (bucket : (b.overlay o).bucketIsBlank = false) :
    (load o).perform s = (.ok (b.overlay o), { s with
      disk := fs
      events := s.events ++ ((b.overlay o).warnings.map Event.log).toArray }) := by
  unfold load check validate
  rw [Work.perform_bind, Work.perform_onDisk, hbase]
  dsimp only
  rw [bucket, if_neg Bool.false_ne_true, Work.perform_bind]
  dsimp only
  rw [Work.perform_forM_log]
  rfl

/-- A configuration file in which an empty tar prefix is listed. -/
def emptyPrefixText : String := "tar_prefixes: ['']\n"

/-- A disk with that file alone. -/
def emptyPrefixDisk : FileSystem where
  nodes := #[
    ⟨.directory [⟨RawText.ofString "c.yaml", 1⟩] FileSystem.root, Node.directoryMode, 0⟩,
    Node.file (.ofBytes emptyPrefixText.toUTF8)]
  workingDirectory := FileSystem.root
  workingPath := Path.ofString "/"
  tempPath := Path.ofString "/"

/-- The options that name it. -/
def emptyPrefixOptions : CommandLine.Options :=
  { CommandLine.Options.none with config := some (Path.ofString "c.yaml") }

/-- A run on that disk. -/
def emptyPrefixSession : Session Unit :=
  Session.start emptyPrefixDisk () fun _ => RawText.ofString "x"

/-- The options that name the file are accepted, and the empty prefix is in effect. -/
theorem load_emptyPrefixOptions :
    ∃ s', (load emptyPrefixOptions).perform emptyPrefixSession
      = (.ok { default with tarPrefixes := [""] }, s') := by
  have there : emptyPrefixDisk.doesExist (Path.ofString "c.yaml") = true := by cbv
  have hbytes : emptyPrefixDisk.bytesAt (Path.ofString "c.yaml") = .ok emptyPrefixText.toUTF8 := by
    -- Where the file lies does not depend on what is in it.
    unfold emptyPrefixDisk
    generalize emptyPrefixText = text
    cbv
  have hyaml : ofYaml? emptyPrefixText = some { default with tarPrefixes := [""] } := by
    decide +kernel
  exact ⟨_, load_of_base (base_of_file rfl there hbytes hyaml) (by decide)⟩

/-- An empty prefix can be loaded. -/
theorem load_admits_empty_prefix :
    ¬ ∀ (o : CommandLine.Options) (s s' : Session Unit) (c : Config),
      (load o).perform s = (.ok c, s') → "" ∉ c.tarPrefixes ∧ "" ∉ c.plainPrefixes := by
  intro never
  obtain ⟨s', h⟩ := load_emptyPrefixOptions
  have nonempty := (never _ _ _ _ h).1
  exact nonempty List.mem_cons_self

/-- The file that lists an empty prefix makes every name a candidate's. -/
theorem load_lists_empty_prefix :
    ∃ c s', (load emptyPrefixOptions).perform emptyPrefixSession = (.ok c, s')
      ∧ FileListsEmpty emptyPrefixOptions emptyPrefixDisk .tarPrefixes
      ∧ ∀ name, (Classification.ofName c name).isCandidate = true := by
  obtain ⟨s', h⟩ := load_emptyPrefixOptions
  obtain ⟨hiff, hevery, -⟩ := load_empty_prefix_iff h
  have listed := (hiff .tar).1 List.mem_cons_self
  exact ⟨_, s', h, listed.2, hevery ⟨.tar, List.mem_cons_self⟩⟩

end ArtifactCourier.Config
