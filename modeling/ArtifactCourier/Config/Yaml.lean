/-
  ArtifactCourier.Config.Yaml
  ──────────────────────────────────────
  **Configurations as YAML documents.**

  A configuration is a mapping from field names to texts, lists of texts, or nothing.
  Reading fills in the fields that the mapping has and leaves the others at their
  defaults; it passes over unknown fields and refuses a known one that comes twice.  What
  is expected decides how a scalar is read: a text field takes any scalar as text, an
  optional one takes an unquoted null for nothing.
-/
import ArtifactCourier.Config
import ArtifactCourier.Yaml.Node
import ArtifactCourier.Yaml.Printer

namespace ArtifactCourier.Config

open Yaml

/-! ## §1. Writing. -/

def pathText (p : Path) : Except Failure String :=
  match p.text.toString? with
  | some s => .ok s
  | none => .error ⟨.serializeConfig, [.pathNotUtf8]⟩

def optionalValue : Option String → Value
  | some s => .text s
  | none => .null

/-- The fields with their values, in the order in which they are written. -/
def toEntries (c : Config) : Except Failure (List (String × Value)) := do
  let dirs ← c.dirs.mapM pathText
  let workDir ← c.workDir.mapM pathText
  .ok [
    ("bucket", .text c.bucket),
    ("tar_prefixes", .list c.tarPrefixes),
    ("plain_prefixes", .list c.plainPrefixes),
    ("dirs", .list dirs),
    ("upload_dir", .text c.uploadDir),
    ("region", optionalValue c.region),
    ("profile", optionalValue c.profile),
    ("work_dir", optionalValue workDir)]

/-- **The document of a configuration**; there is none if a path is not text. -/
def toYaml (c : Config) : Except Failure String := c.toEntries.map Printer.document

/-! ## §2. Reading. -/

/-- The fields of a configuration. -/
inductive Field where
  | bucket
  | tarPrefixes
  | plainPrefixes
  | dirs
  | uploadDir
  | region
  | profile
  | workDir
deriving DecidableEq, Repr

def Field.name : Field → String
  | bucket => "bucket"
  | tarPrefixes => "tar_prefixes"
  | plainPrefixes => "plain_prefixes"
  | dirs => "dirs"
  | uploadDir => "upload_dir"
  | region => "region"
  | profile => "profile"
  | workDir => "work_dir"

/-- All fields, in the order of a document. -/
def Field.all : List Field :=
  [bucket, tarPrefixes, plainPrefixes, dirs, uploadDir, region, profile, workDir]

def Field.ofName? (name : List Char) : Option Field := all.find? (·.name.toList == name)

/-- The text of a scalar, whatever it looks like. -/
def textOf? (d : Document) (n : Yaml.Node) : Option String :=
  match d.resolve n with
  | .scalar _ _ text => some (String.ofList text)
  | _ => none

/-- The texts of a sequence of scalars; an empty plain scalar is an empty list. -/
def listOf? (d : Document) (n : Yaml.Node) : Option (List String) :=
  match d.resolve n with
  | .sequence items => items.mapM (textOf? d)
  | .scalar _ .plain [] => some []
  | _ => none

def nullTag : List Char := "tag:yaml.org,2002:null".toList

/-- The text of a scalar, or nothing for an unquoted null.  A tag settles the question: with
the tag of null only a null is accepted, with any other the scalar is a text. -/
def optionOf? (d : Document) (n : Yaml.Node) : Option (Option String) :=
  match d.resolve n with
  | .scalar tag style text =>
    let value := some (String.ofList text)
    if style ≠ .plain then some value
    else
      match tag with
      | none => some (if Resolution.isNull text then none else value)
      | some t =>
        if t = nullTag then (if Resolution.isNullWord text then some none else none)
        else some value
  | _ => none

/-- The configuration with a field as the node says. -/
def setField (d : Document) (f : Field) (n : Yaml.Node) (c : Config) : Option Config :=
  match f with
  | .bucket => (textOf? d n).map fun s => { c with bucket := s }
  | .tarPrefixes => (listOf? d n).map fun l => { c with tarPrefixes := l }
  | .plainPrefixes => (listOf? d n).map fun l => { c with plainPrefixes := l }
  | .dirs => (listOf? d n).map fun l => { c with dirs := l.map Path.ofString }
  | .uploadDir => (textOf? d n).map fun s => { c with uploadDir := s }
  | .region => (optionOf? d n).map fun o => { c with region := o }
  | .profile => (optionOf? d n).map fun o => { c with profile := o }
  | .workDir => (optionOf? d n).map fun o => { c with workDir := o.map Path.ofString }

/-- The configuration with the fields of the entries; `seen` are those that were set. -/
def setFields (d : Document) (seen : List Field) : List (Yaml.Node × Yaml.Node) → Config → Option Config
  | [], c => some c
  | (key, value) :: entries, c => do
    let name ← textOf? d key
    match Field.ofName? name.toList with
    | none => setFields d seen entries c
    | some f =>
      if f ∈ seen then none
      else
        let c ← setField d f value c
        setFields d (f :: seen) entries c

/-- The configuration of a document.  An empty one says nothing. -/
def ofDocument? (d : Document) : Option Config :=
  match d.root with
  | .mapping entries => setFields d [] entries default
  | .scalar _ .plain [] => some default
  | _ => none

/-- **The configuration that a text describes**, if it does. -/
def ofYaml? (text : String) : Option Config := do
  let tokens ← tokens? text.toList
  let document ← document? tokens
  match document with
  | none => some default
  | some d => ofDocument? d

end ArtifactCourier.Config
