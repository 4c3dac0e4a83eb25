/-
  ArtifactCourier.Config.Load
  ──────────────────────────────────────
  **Configuration files, and the configuration of a run.**

  `load` puts the three layers together: the defaults, the file that `--config` names, and
  the options of the command line.  A file that is named has to exist.
-/
import ArtifactCourier.Config.Yaml
import ArtifactCourier.Session

namespace ArtifactCourier.Config

variable {σ : Type}

def readText (path : Path) : Disk String := do
  let bytes ← Disk.look (.readConfig path) (·.bytesAt path)
  match String.fromUTF8? bytes with
  | some text => pure text
  | none => Disk.fail ⟨.readConfig path, [.notUtf8]⟩

/-- **The configuration that a file describes.** -/
def ofYamlFile (path : Path) : Disk Config := do
  match ofYaml? (← readText path) with
  | some c => pure c
  | none => Disk.fail (.ofProblem .parseConfig)

/-- **Writes a configuration to a file.**  Nothing is written unless all of it can be. -/
def saveYamlFile (c : Config) (path : Path) : Work σ Unit := do
  match c.toYaml with
  | .error f => Work.fail f
  | .ok text =>
    Work.onDisk (Disk.change (.writeConfig path) fun disk =>
      (disk.writeFile path text.toUTF8).map ((), ·))
    Work.log (.savedConfig path)

/-- The configuration below the command line: that of the named file, or the defaults. -/
def base (o : CommandLine.Options) : Disk Config := do
  match o.config with
  | none => pure default
  | some path =>
    if (← get).doesExist path then ofYamlFile path else Disk.fail (.ofProblem (.configNotFound path))

/-- Refuses a configuration that cannot work, and warns of one that has nothing to do. -/
def check (c : Config) : Work σ Unit := do
  match c.validate with
  | .ok lines => lines.forM Work.log
  | .error f => Work.fail f

/-- **The configuration of a run.** -/
def load (o : CommandLine.Options) : Work σ Config := do
  let c ← Work.onDisk (base o)
  let c := c.overlay o
  check c
  pure c

end ArtifactCourier.Config
