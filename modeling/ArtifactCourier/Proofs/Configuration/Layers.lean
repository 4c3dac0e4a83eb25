/-
  ArtifactCourier.Proofs.Configuration.Layers
  ──────────────────────────────────────
  **The three layers of a configuration.**

  Every field of the configuration of a run is decided by itself: by its option if that is
  given, else by the entry of the configuration file that names it, else by the defaults.
  There is no configuration if the file that is named cannot be used, or if nothing but
  blanks is left of the bucket's name.

    • `Field.Value`, `Field.get` — the fields as one family,
    • `setFields_isSome_iff` — which entries describe a configuration,
    • `Decides` — what the layers say about a field, and `decides_iff` — that this is what is
      loaded,
    • `Refused` — the ways in which loading fails,
    • `load_layers` — the law.
-/
import ArtifactCourier.Proofs.Configuration.EmptyPrefix
import ArtifactCourier.Proofs.Text.CommaList

namespace ArtifactCourier.Config

open Yaml

/-! ## §1. Fields. -/

namespace Field

/-- What a field holds. -/
abbrev Value : Field → Type
  | bucket => String
  | tarPrefixes => List String
  | plainPrefixes => List String
  | dirs => List Path
  | uploadDir => String
  | region => Option String
  | profile => Option String
  | workDir => Option Path

def get : (f : Field) → Config → f.Value
  | bucket, c => c.bucket
  | tarPrefixes, c => c.tarPrefixes
  | plainPrefixes, c => c.plainPrefixes
  | dirs, c => c.dirs
  | uploadDir, c => c.uploadDir
  | region, c => c.region
  | profile, c => c.profile
  | workDir, c => c.workDir

/-- What the command line says about a field: nothing, or a value, which may be empty. -/
def option? : (f : Field) → CommandLine.Options → Option f.Value
  | bucket, o => o.bucketName
  | tarPrefixes, o => o.prefixToTar.map Text.splitList
  | plainPrefixes, o => o.plainPrefix.map Text.splitList
  | dirs, o => o.dirs.map fun value => (Text.splitList value).map Path.ofString
  | uploadDir, o => o.uploadDir
  | region, o => o.region.map some
  | profile, o => o.profile.map some
  | workDir, o => o.workDir.map some

/-- What a node of a document says about a field, if it is of the right kind: a text is a scalar,
a list a sequence of scalars, and an optional text a scalar that may stand for nothing. -/
def read? : (f : Field) → Document → Yaml.Node → Option f.Value
  | bucket, d, n => textOf? d n
  | tarPrefixes, d, n => listOf? d n
  | plainPrefixes, d, n => listOf? d n
  | dirs, d, n => (listOf? d n).map (·.map Path.ofString)
  | uploadDir, d, n => textOf? d n
  | region, d, n => optionOf? d n
  | profile, d, n => optionOf? d n
  | workDir, d, n => (optionOf? d n).map (·.map Path.ofString)

theorem same_iff {f : Field} {a b : Config} : f.Same a b ↔ f.get a = f.get b := by
  cases f <;> rfl

/-- A configuration is its fields. -/
theorem ext_get {a b : Config} (h : ∀ f : Field, f.get a = f.get b) : a = b := by
  obtain ⟨_, _, _, _, _, _, _, _⟩ := a
  obtain ⟨_, _, _, _, _, _, _, _⟩ := b
  simp only [Config.mk.injEq]
  exact ⟨h bucket, h tarPrefixes, h plainPrefixes, h dirs, h uploadDir, h region, h profile,
    h workDir⟩

/-- An option takes the place of its field. -/
theorem get_overlay (f : Field) (c : Config) (o : CommandLine.Options) :
    f.get (c.overlay o) = (f.option? o).getD (f.get c) := by
  cases f
  case region => cases h : o.region <;> simp [get, option?, overlay, h]
  case profile => cases h : o.profile <;> simp [get, option?, overlay, h]
  case workDir => cases h : o.workDir <;> simp [get, option?, overlay, h]
  all_goals rfl

/-- A node of the right kind is needed to set a field, and is enough. -/
theorem isSome_setField {f : Field} {d : Document} {n : Yaml.Node} {c : Config} :
    (setField d f n c).isSome = (f.read? d n).isSome := by
  cases f <;> simp [setField, read?]

/-- A field that is set is as the node says. -/
theorem read?_of_setField {f : Field} {d : Document} {n : Yaml.Node} {c c' : Config}
    (h : setField d f n c = some c') : f.read? d n = some (f.get c') := by
  cases f <;>
    obtain ⟨value, hvalue, rfl⟩ := Option.map_eq_some_iff.1 h <;>
    simp [read?, get, hvalue]

end Field

/-! ## §2. Entries. -/

/-- The entries of a document describe a configuration: every key is a text, no field is named
twice, and what is said about a field is of its kind.  Other names may come as they like. -/
structure Fitting (d : Document) (entries : List (Yaml.Node × Yaml.Node)) : Prop where
  keys : ∀ e ∈ entries, (textOf? d e.1).isSome
  once : entries.Pairwise fun a b => ∀ f, Names d a.1 f → ¬ Names d b.1 f
  kinds : ∀ e ∈ entries, ∀ f, Names d e.1 f → (f.read? d e.2).isSome

theorem fitting_cons {d : Document} {entry : Yaml.Node × Yaml.Node}
    {entries : List (Yaml.Node × Yaml.Node)} :
    Fitting d (entry :: entries) ↔
      (textOf? d entry.1).isSome ∧ (∀ f, Names d entry.1 f → (f.read? d entry.2).isSome) ∧
        (∀ f, Names d entry.1 f → ∀ e ∈ entries, ¬ Names d e.1 f) ∧ Fitting d entries := by
  constructor
  · intro h
    obtain ⟨key, keys⟩ := List.forall_mem_cons.1 h.keys
    obtain ⟨apart, once⟩ := List.pairwise_cons.1 h.once
    obtain ⟨kind, kinds⟩ := List.forall_mem_cons.1 h.kinds
    exact ⟨key, kind, fun f hf e he => apart e he f hf, keys, once, kinds⟩
  · intro given
    obtain ⟨key, kind, apart, keys, once, kinds⟩ := given
    exact ⟨List.forall_mem_cons.2 ⟨key, keys⟩,
      List.pairwise_cons.2 ⟨fun e he f hf => apart f hf e he, once⟩,
      List.forall_mem_cons.2 ⟨kind, kinds⟩⟩

/-- The name of a field is found; other names are not. -/
theorem ofName?_of_textOf? {d : Document} {key : Yaml.Node} {name : String}
    (h : textOf? d key = some name) {f : Field} :
    Field.ofName? name.toList = some f ↔ Names d key f := by
  rw [Field.ofName?_eq_some_iff, String.toList_inj, Names, h, Option.some.injEq]

/-- **Which entries describe a configuration**, apart from fields that were set before. -/
theorem setFields_isSome_iff {d : Document} {entries : List (Yaml.Node × Yaml.Node)}
    {seen : List Field} {c : Config} :
    (setFields d seen entries c).isSome ↔
      Fitting d entries ∧ ∀ f ∈ seen, ∀ e ∈ entries, ¬ Names d e.1 f := by
  induction entries generalizing seen c with
  | nil =>
    have fits : Fitting d [] :=
      ⟨fun _ h => absurd h List.not_mem_nil, List.Pairwise.nil,
        fun _ h => absurd h List.not_mem_nil⟩
    simpa [setFields] using fits
  | cons entry entries ih =>
    obtain ⟨key, value⟩ := entry
    rw [fitting_cons]
    cases hname : textOf? d key with
    | none => simp [setFields, hname]
    | some name =>
      cases hfield : Field.ofName? name.toList with
      | none =>
        -- The key names no field, so it neither sets one nor repeats one.
        have unknown : ∀ f, ¬ Names d key f := by
          intro f hf
          rw [← ofName?_of_textOf? hname, hfield] at hf
          cases hf
        simp [setFields, hname, hfield, ih, unknown]
      | some g =>
        have named : ∀ f, Names d key f ↔ g = f := by
          intro f
          rw [← ofName?_of_textOf? hname, hfield, Option.some.injEq]
        by_cases hseen : g ∈ seen
        · -- The field was set before.
          have repeated : ¬ ∀ f ∈ seen, ∀ e ∈ (key, value) :: entries, ¬ Names d e.1 f :=
            fun fresh => fresh g hseen _ List.mem_cons_self ((named g).2 rfl)
          simp only [setFields, hname, hfield, Option.bind_eq_bind, Option.bind_some, if_pos hseen,
            Option.isSome_none, Bool.false_eq_true, repeated, and_false]
        · cases hset : setField d g value c with
          | none =>
            have wrong : (g.read? d value).isSome = false := by
              rw [← Field.isSome_setField (c := c), hset]
              rfl
            simp [setFields, hname, hfield, hseen, hset, named, wrong]
          | some c₁ =>
            have right : (g.read? d value).isSome = true := by
              rw [← Field.isSome_setField (c := c), hset]
              rfl
            have step : setFields d seen ((key, value) :: entries) c
                = setFields d (g :: seen) entries c₁ := by
              simp [setFields, hname, hfield, hseen, hset]
            rw [step, ih]
            simp only [named, right, List.forall_mem_cons, forall_eq', Option.isSome_some,
              true_and]
            constructor
            · intro given
              obtain ⟨fits, here, before⟩ := given
              refine ⟨⟨here, fits⟩, fun f hf => ⟨?_, before f hf⟩⟩
              rintro rfl
              exact hseen hf
            · intro given
              obtain ⟨⟨here, fits⟩, before⟩ := given
              exact ⟨fits, here, fun f hf => (before f hf).2⟩

/-! ## §3. Documents. -/

/-- The entries of a text: those of the mapping that it is, and none if it says nothing.  What is
neither has none. -/
def entriesOf? (text : String) : Option (Document × List (Yaml.Node × Yaml.Node)) := do
  let tokens ← tokens? text.toList
  let document ← document? tokens
  match document with
  | none => some (Inhabited.default, [])
  | some d =>
    match d.root with
    | .mapping entries => some (d, entries)
    | .scalar _ .plain [] => some (d, [])
    | _ => none

theorem ofDocument?_eq_entries (d : Document) :
    ofDocument? d =
      (match d.root with
        | .mapping entries => some (d, entries)
        | .scalar _ .plain [] => some (d, [])
        | _ => none).bind fun e => setFields e.1 [] e.2 default := by
  obtain ⟨root, anchors⟩ := d
  cases root with
  | mapping entries => rfl
  | scalar tag style text => cases style <;> cases text <;> rfl
  | sequence items => rfl
  | «alias» anchor => rfl

/-- A text describes the configuration that its entries set over the defaults. -/
theorem ofYaml?_eq_entries (text : String) :
    ofYaml? text = (entriesOf? text).bind fun e => setFields e.1 [] e.2 default := by
  unfold ofYaml? entriesOf?
  simp only [Option.bind_eq_bind, Option.bind_assoc]
  congr 1
  funext tokens
  congr 1
  funext document
  cases document with
  | none => rfl
  | some d => exact ofDocument?_eq_entries d

/-- A text describes a configuration. -/
def Describes (text : String) : Prop :=
  ∃ d entries, entriesOf? text = some (d, entries) ∧ Fitting d entries

theorem isSome_ofYaml?_iff {text : String} : (ofYaml? text).isSome ↔ Describes text := by
  rw [ofYaml?_eq_entries, Describes]
  cases entriesOf? text with
  | none => simp
  | some e =>
    obtain ⟨d, entries⟩ := e
    simp [setFields_isSome_iff]

/-! ## §4. The file. -/

variable {o : CommandLine.Options} {disk fs : FileSystem} {b : Config} {f : Failure}

/-- Reading a configuration file changes nothing, and takes four steps: it can be read, it is
text, and the text describes a configuration. -/
theorem perform_ofYamlFile_eq (path : Path) (disk : FileSystem) :
    (ofYamlFile path).perform disk =
      (match disk.bytesAt path with
        | .error e => .error ((Failure.ofFile e).within (.readConfig path))
        | .ok bytes =>
          match String.fromUTF8? bytes with
          | none => .error ⟨.readConfig path, [.notUtf8]⟩
          | some text =>
            match ofYaml? text with
            | none => .error (.ofProblem .parseConfig)
            | some c => .ok c, disk) := by
  unfold ofYamlFile readText
  rw [Disk.perform_bind, Disk.perform_bind, Disk.perform_look]
  rcases disk.bytesAt path with e | bytes
  · rfl
  · dsimp only
    rcases String.fromUTF8? bytes with _ | text
    · rfl
    · rw [Disk.perform_pure]
      dsimp only
      rcases ofYaml? text with _ | c <;> rfl

theorem perform_base (o : CommandLine.Options) (disk : FileSystem) :
    (base o).perform disk =
      match o.config with
      | none => (.ok default, disk)
      | some path =>
        if disk.doesExist path then (ofYamlFile path).perform disk
        else (.error (.ofProblem (.configNotFound path)), disk) := by
  unfold base
  cases o.config with
  | none => rfl
  | some path =>
    dsimp only
    rw [Disk.perform_bind, Disk.perform_get]
    dsimp only
    split <;> rfl

/-- The ways in which the configuration file that options name cannot be used. -/
inductive FileRefused (o : CommandLine.Options) (disk : FileSystem) : Failure → Prop
  /-- Nothing is there. -/
  | missing {path : Path} (named : o.config = some path) (gone : disk.doesExist path = false) :
      FileRefused o disk (.ofProblem (.configNotFound path))
  /-- What is there cannot be read. -/
  | unreadable {path : Path} {e : FileError} (named : o.config = some path)
      (there : disk.doesExist path = true) (refused : disk.bytesAt path = .error e) :
      FileRefused o disk ((Failure.ofFile e).within (.readConfig path))
  /-- What is read is no text. -/
  | notText {path : Path} {bytes : ByteArray} (named : o.config = some path)
      (there : disk.doesExist path = true) (read : disk.bytesAt path = .ok bytes)
      (binary : String.fromUTF8? bytes = none) :
      FileRefused o disk ⟨.readConfig path, [.notUtf8]⟩
  /-- The text describes no configuration. -/
  | noConfiguration {path : Path} {bytes : ByteArray} {text : String}
      (named : o.config = some path) (there : disk.doesExist path = true)
      (read : disk.bytesAt path = .ok bytes) (decoded : String.fromUTF8? bytes = some text)
      (other : ¬ Describes text) : FileRefused o disk (.ofProblem .parseConfig)

theorem perform_base_of_fileRefused (h : FileRefused o disk f) :
    (base o).perform disk = (.error f, disk) := by
  rw [perform_base]
  cases h with
  | missing named gone => simp [named, gone]
  | unreadable named there refused => simp [named, there, perform_ofYamlFile_eq, refused]
  | notText named there read binary =>
    simp [named, there, perform_ofYamlFile_eq, read, binary]
  | noConfiguration named there read decoded other =>
    have nothing := Option.not_isSome_iff_eq_none.1 (mt isSome_ofYaml?_iff.1 other)
    simp [named, there, perform_ofYamlFile_eq, read, decoded, nothing]

/-- The file that options name has these entries. -/
def FileHas (o : CommandLine.Options) (disk : FileSystem) (d : Document)
    (entries : List (Yaml.Node × Yaml.Node)) : Prop :=
  ∃ path bytes text, o.config = some path ∧ disk.bytesAt path = .ok bytes ∧
    String.fromUTF8? bytes = some text ∧ entriesOf? text = some (d, entries)

theorem FileHas.unique {d d' : Document} {entries entries' : List (Yaml.Node × Yaml.Node)}
    (h : FileHas o disk d entries) (h' : FileHas o disk d' entries') :
    d = d' ∧ entries = entries' := by
  obtain ⟨path, bytes, text, named, read, decoded, parsed⟩ := h
  obtain ⟨path', bytes', text', named', read', decoded', parsed'⟩ := h'
  obtain rfl := Option.some.inj (named.symm.trans named')
  obtain rfl := Except.ok.inj (read.symm.trans read')
  obtain rfl := Option.some.inj (decoded.symm.trans decoded')
  exact Prod.mk.inj (Option.some.inj (parsed.symm.trans parsed'))

/-- The configuration below the command line: the defaults, with the entries of the file set over
them if there is one.  There is none if and only if the file is refused. -/
theorem base_cases (o : CommandLine.Options) (disk : FileSystem) :
    (∃ f, FileRefused o disk f ∧ (base o).perform disk = (.error f, disk)) ∨
      ((∀ f, ¬ FileRefused o disk f) ∧ o.config = none ∧
        (base o).perform disk = (.ok default, disk)) ∨
      ∃ d entries c, (∀ f, ¬ FileRefused o disk f) ∧ FileHas o disk d entries ∧
        setFields d [] entries default = some c ∧ (base o).perform disk = (.ok c, disk) := by
  by_cases refused : ∃ f, FileRefused o disk f
  · obtain ⟨f, h⟩ := refused
    exact .inl ⟨f, h, perform_base_of_fileRefused h⟩
  · have usable : ∀ f, ¬ FileRefused o disk f := not_exists.1 refused
    right
    rw [perform_base]
    cases named : o.config with
    | none => exact .inl ⟨usable, rfl, rfl⟩
    | some path =>
      right
      -- Each step succeeds, for if it failed the file were refused.
      have there : disk.doesExist path = true := by
        by_contra gone
        exact usable _ (.missing named (Bool.eq_false_iff.2 gone))
      cases read : disk.bytesAt path with
      | error e => exact absurd (.unreadable named there read) (usable _)
      | ok bytes =>
        cases decoded : String.fromUTF8? bytes with
        | none => exact absurd (.notText named there read decoded) (usable _)
        | some text =>
          cases described : ofYaml? text with
          | none =>
            have other : ¬ Describes text := by
              rw [← isSome_ofYaml?_iff, described]
              exact Bool.false_ne_true
            exact absurd (.noConfiguration named there read decoded other) (usable _)
          | some c =>
            rw [ofYaml?_eq_entries] at described
            obtain ⟨⟨d, entries⟩, parsed, set⟩ := Option.bind_eq_some_iff.1 described
            refine ⟨d, entries, c, usable, ⟨path, bytes, text, named, read, decoded, parsed⟩, set,
              ?_⟩
            dsimp only
            rw [if_pos there, perform_ofYamlFile_eq, read]
            dsimp only
            rw [decoded]
            dsimp only
            rw [ofYaml?_eq_entries, parsed, Option.bind_some, set]

/-! ## §5. The layers. -/

/-- What the layers say about a field. -/
inductive Decides (o : CommandLine.Options) (disk : FileSystem) (field : Field) :
    field.Value → Prop
  /-- The option is given. -/
  | option {v : field.Value} (given : field.option? o = some v) : Decides o disk field v
  /-- The option is not given, and an entry of the file has the name of the field. -/
  | file {d : Document} {entries : List (Yaml.Node × Yaml.Node)} {key value : Yaml.Node}
      {v : field.Value} (absent : field.option? o = none) (has : FileHas o disk d entries)
      (entry : (key, value) ∈ entries) (names : Names d key field)
      (reads : field.read? d value = some v) : Decides o disk field v
  /-- The option is not given, and no entry of the file has that name. -/
  | fallback (absent : field.option? o = none)
      (unnamed : ∀ d entries, FileHas o disk d entries → ∀ e ∈ entries, ¬ Names d e.1 field) :
      Decides o disk field (field.get default)

/-- A field that an entry names is as the entry says. -/
theorem read?_of_setFields {field : Field} {d : Document} {key value : Yaml.Node}
    {entries : List (Yaml.Node × Yaml.Node)} {seen : List Field} {c c' : Config}
    (h : setFields d seen entries c = some c') (entry : (key, value) ∈ entries)
    (names : Names d key field) : field.read? d value = some (field.get c') := by
  obtain ⟨c₁, c₂, hset, same⟩ := setFields_of_mem h entry names
  rw [Field.read?_of_setField hset, Field.same_iff.1 same]

/-- **What the layers say about a field is what it is.** -/
theorem decides_iff (hbase : (base o).perform disk = (.ok b, fs)) {field : Field}
    {v : field.Value} : Decides o disk field v ↔ field.get (b.overlay o) = v := by
  rw [Field.get_overlay]
  obtain ⟨f, -, failed⟩ | ⟨-, named, done⟩ | ⟨d, entries, c, -, has, hset, done⟩ :=
    base_cases o disk
  · rw [failed] at hbase
    cases hbase
  · -- Without a file the defaults are below the command line.
    rw [done] at hbase
    cases hbase
    have nothing : ∀ d entries, ¬ FileHas o disk d entries := by
      rintro d entries ⟨path, -, -, named', -⟩
      rw [named] at named'
      cases named'
    constructor
    · intro given
      cases given with
      | option given => rw [given, Option.getD_some]
      | file absent has => exact absurd has (nothing _ _)
      | fallback absent unnamed => rw [absent, Option.getD_none]
    · rintro rfl
      cases given : field.option? o with
      | none => exact .fallback given fun d entries has => absurd has (nothing d entries)
      | some v => exact .option given
  · rw [done] at hbase
    cases hbase
    constructor
    · intro given
      cases given with
      | option given => rw [given, Option.getD_some]
      | file absent has' entry names reads =>
        obtain ⟨rfl, rfl⟩ := has.unique has'
        rw [read?_of_setFields hset entry names] at reads
        rw [absent, Option.getD_none, Option.some.inj reads]
      | fallback absent unnamed =>
        rw [absent, Option.getD_none]
        exact (Field.same_iff.1 (setFields_same_of_unnamed hset (unnamed d entries has))).symm
    · rintro rfl
      cases given : field.option? o with
      | some v => exact .option given
      | none =>
        rw [Option.getD_none]
        by_cases named : ∃ e ∈ entries, Names d e.1 field
        · obtain ⟨⟨key, value⟩, entry, names⟩ := named
          exact .file given has entry names (read?_of_setFields hset entry names)
        · have unnamed : ∀ e ∈ entries, ¬ Names d e.1 field := fun e he hn => named ⟨e, he, hn⟩
          rw [← Field.same_iff.1 (setFields_same_of_unnamed hset unnamed)]
          refine .fallback given fun d' entries' has' => ?_
          obtain ⟨rfl, rfl⟩ := has.unique has'
          exact unnamed

/-! ## §6. Loading. -/

/-- The ways in which a configuration is refused. -/
inductive Refused (o : CommandLine.Options) (disk : FileSystem) : Failure → Prop
  /-- The file that is named cannot be used. -/
  | file {f : Failure} (refused : FileRefused o disk f) : Refused o disk f
  /-- The bucket that the layers decide on has a name of blanks, or none. -/
  | bucket {name : String} (usable : ∀ f, ¬ FileRefused o disk f)
      (decided : Decides o disk .bucket name) (blank : ∀ c ∈ name.toList, Text.isBlank c = true) :
      Refused o disk (.ofProblem .emptyBucket)

theorem base_of_usable (usable : ∀ f, ¬ FileRefused o disk f) :
    ∃ b, (base o).perform disk = (.ok b, disk) := by
  obtain ⟨f, refused, -⟩ | ⟨-, -, done⟩ | ⟨d, entries, c, -, -, -, done⟩ := base_cases o disk
  · exact absurd refused (usable f)
  · exact ⟨_, done⟩
  · exact ⟨c, done⟩

/-- What loading comes to, once the layers below the command line are known. -/
theorem load_outcome {σ : Type} (o : CommandLine.Options) (s : Session σ) :
    ((load o).perform s).1 =
      match ((base o).perform s.disk).1 with
      | .error f => .error f
      | .ok b =>
        if (b.overlay o).bucketIsBlank then .error (.ofProblem .emptyBucket)
        else .ok (b.overlay o) := by
  unfold load check validate
  rw [Work.perform_bind, Work.perform_onDisk]
  rcases (base o).perform s.disk with ⟨f | b, fs⟩
  · rfl
  · dsimp only
    rw [Work.perform_bind]
    cases (b.overlay o).bucketIsBlank with
    | true => rfl
    | false =>
      rw [if_neg Bool.false_ne_true, if_neg Bool.false_ne_true]
      dsimp only
      rw [Work.perform_forM_log]
      rfl

/-- A usable file leaves only the bucket to be refused. -/
theorem refused_iff_of_base (usable : ∀ f, ¬ FileRefused o disk f)
    (hbase : (base o).perform disk = (.ok b, fs)) :
    Refused o disk f ↔ (b.overlay o).bucketIsBlank = true ∧ f = .ofProblem .emptyBucket := by
  unfold bucketIsBlank
  rw [Text.trim_isEmpty_iff]
  constructor
  · intro given
    cases given with
    | file refused => exact absurd refused (usable f)
    | bucket _ decided blank =>
      have same : (b.overlay o).bucket = _ := (decides_iff hbase).1 decided
      exact ⟨same ▸ blank, rfl⟩
  · rintro ⟨blank, rfl⟩
    exact .bucket usable ((decides_iff hbase).2 rfl) blank

/-- **The layers of a configuration.**  Loading fails in exactly the ways of `Refused`.  If it is
not refused, a configuration is loaded, and every field of it is as the layers say: by the option
if that is given, else by the entry of the file that names it, else by the defaults.  Its options
change nothing in it any more. -/
theorem load_layers {σ : Type} (o : CommandLine.Options) (s : Session σ) :
    (∀ f, (∃ s', (load o).perform s = (.error f, s')) ↔ Refused o s.disk f) ∧
      (∀ c, (∃ s', (load o).perform s = (.ok c, s')) ↔
        (∀ f, ¬ Refused o s.disk f) ∧ ∀ field : Field, Decides o s.disk field (field.get c)) ∧
      ∀ c s', (load o).perform s = (.ok c, s') → c.overlay o = c := by
  have settled : ∀ c s', (load o).perform s = (.ok c, s') → c.overlay o = c := by
    intro c s' h
    obtain ⟨b, -, -, rfl⟩ := load_eq_ok h
    exact overlay_idem b o
  simp only [Work.exists_session_iff, load_outcome]
  by_cases usable : ∀ f, ¬ FileRefused o s.disk f
  · obtain ⟨b, hbase⟩ := base_of_usable usable
    -- The fields of what is loaded are known, so it is.
    have decided : ∀ c, (∀ field : Field, Decides o s.disk field (field.get c)) ↔
        b.overlay o = c := by
      intro c
      simp only [decides_iff hbase]
      exact ⟨Field.ext_get, fun h _ => h ▸ rfl⟩
    simp only [hbase, refused_iff_of_base usable hbase, decided]
    refine ⟨fun f => ?_, fun c => ?_, settled⟩
    · cases (b.overlay o).bucketIsBlank <;> simp [eq_comm]
    · cases (b.overlay o).bucketIsBlank <;> simp
  · obtain ⟨f₀, refused⟩ := not_forall_not.1 usable
    have failed := perform_base_of_fileRefused refused
    simp only [failed]
    refine ⟨fun f => ⟨?_, ?_⟩, fun c => ⟨nofun, ?_⟩, settled⟩
    · intro h
      cases h
      exact .file refused
    · intro given
      cases given with
      | file refused' =>
        have same := failed.symm.trans (perform_base_of_fileRefused refused')
        exact (Prod.mk.inj same).1
      | bucket usable' => exact absurd refused (usable' f₀)
    · rintro ⟨unrefused, -⟩
      exact absurd (.file refused) (unrefused f₀)

/-! ## §7. A configuration of three layers. -/

/-- A configuration file with a field that stands for nothing and a key that names no field. -/
def layeredText : String :=
  "upload_dir: v7\nprofile: ~\ncolour: red\ndirs: [a, b]\ntar_prefixes: [x]\nbucket: ' '\n"

/-- A disk with that file alone. -/
def layeredDisk : FileSystem where
  nodes := #[
    ⟨.directory [⟨RawText.ofString "c.yaml", 1⟩] FileSystem.root, Node.directoryMode, 0⟩,
    Node.file (.ofBytes layeredText.toUTF8)]
  workingDirectory := FileSystem.root
  workingPath := Path.ofString "/"
  tempPath := Path.ofString "/"

/-- Options that name it and set a bucket, an empty directory for uploads and no tar prefixes. -/
def layeredOptions : CommandLine.Options :=
  { CommandLine.Options.none with
    config := some (Path.ofString "c.yaml")
    bucketName := some "shelf"
    uploadDir := some ""
    prefixToTar := some " , " }

/-- A run on that disk. -/
def layeredSession : Session Unit :=
  Session.start layeredDisk () fun _ => RawText.ofString "x"

/-- What the three layers come to. -/
def layeredConfig : Config :=
  { default with
    bucket := "shelf"
    tarPrefixes := []
    dirs := [Path.ofString "a", Path.ofString "b"] }

/-- The options are accepted; every field of the configuration is as the layers say. -/
theorem layeredConfig_loaded :
    (∃ s', (load layeredOptions).perform layeredSession = (.ok layeredConfig, s')) ∧
      (∀ f, ¬ Refused layeredOptions layeredDisk f) ∧
      (∀ field : Field, Decides layeredOptions layeredDisk field (field.get layeredConfig)) ∧
      layeredConfig.overlay layeredOptions = layeredConfig := by
  have there : layeredDisk.doesExist (Path.ofString "c.yaml") = true := by cbv
  have hbytes : layeredDisk.bytesAt (Path.ofString "c.yaml") = .ok layeredText.toUTF8 := by
    -- Where the file lies does not depend on what is in it.
    unfold layeredDisk
    generalize layeredText = text
    cbv
  have hyaml : ofYaml? layeredText = some { default with
      bucket := " ", tarPrefixes := ["x"], dirs := [Path.ofString "a", Path.ofString "b"],
      uploadDir := "v7" } := by decide +kernel
  have loaded : ∃ s', (load layeredOptions).perform layeredSession = (.ok layeredConfig, s') :=
    ⟨_, load_of_base (base_of_file rfl there hbytes hyaml) (by decide)⟩
  obtain ⟨-, layers, settled⟩ := load_layers layeredOptions layeredSession
  obtain ⟨unrefused, decided⟩ := (layers layeredConfig).1 loaded
  obtain ⟨s', h⟩ := loaded
  exact ⟨⟨s', h⟩, unrefused, decided, settled layeredConfig s' h⟩

end ArtifactCourier.Config
