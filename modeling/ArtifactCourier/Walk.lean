/-
  ArtifactCourier.Walk
  ──────────────────────────────────────
  **The walk through the source directories.**

  Directories are taken in the configured order, their entries in the order of the
  listing, and one file is published completely before the next is looked at.  The first
  failure ends the walk.

    • An entry whose name is not text, or starts with no configured prefix, is passed over
      without being looked at; one that is no regular file is passed over with a warning.
    • A tar candidate is published as it is, then as a gzip copy, then as an archive; the
      two compressed forms are made in a scratch directory.
    • A plain candidate is published as it is, also if it has been published as a tar
      candidate before.
-/
import ArtifactCourier.Candidate
import ArtifactCourier.Compression
import ArtifactCourier.Scratch

namespace ArtifactCourier.Walk

variable {σ : Type}

/-! ## §1. One file. -/

/-- Uploads a file under the key that belongs to a name. -/
def upload (config : Config) (store : ObjectStore σ) (file : Path) (name : String) :
    Work σ Unit := do
  let key := destinationKey config.uploadDir name
  Work.log (.startingUpload name config.bucket key)
  store.upload file key
  Work.log (.doneUploading name)
  Work.count Report.addUpload

/-- Makes a gzip copy in a scratch directory and uploads it. -/
def publishGzip (config : Config) (store : ObjectStore σ) (file : Path) (name : String)
    (scratch : Path) : Work σ Unit := do
  let copy := scratch.join (RawText.ofString (gzipName name))
  Work.log (.compressingGzip file)
  discard (Work.onDisk (Compression.gzipFile file copy))
  upload config store copy (gzipName name)

/-- Makes an archive in a scratch directory and uploads it. -/
def publishTarGz (config : Config) (store : ObjectStore σ) (file : Path) (name : String)
    (scratch : Path) : Work σ Unit := do
  let copy := scratch.join (RawText.ofString (tarGzName name))
  Work.log (.compressingTarGz file)
  Work.onDisk (Compression.tarGzFile file copy)
  upload config store copy (tarGzName name)

/-- Publishes a file as it is and in both compressed forms. -/
def publishTar (config : Config) (store : ObjectStore σ) (file : Path) (name : String) :
    Work σ Unit := do
  Work.count Report.addTarCandidate
  upload config store file name
  Scratch.use config fun scratch => do
    publishGzip config store file name scratch
    publishTarGz config store file name scratch

def publishPlain (config : Config) (store : ObjectStore σ) (file : Path) (name : String) :
    Work σ Unit := do
  Work.count Report.addPlainCandidate
  upload config store file name

/-- Publishes a regular file as its classification asks. -/
def publish (config : Config) (store : ObjectStore σ) (file : Path) (name : String)
    (c : Classification) : Work σ Unit := do
  if c.tar && c.plain then Work.log (.matchesBoth name)
  if c.tar then publishTar config store file name
  if c.plain then publishPlain config store file name

/-! ## §2. Directories. -/

/-- What an entry leads to, for a file that is to be published. -/
def lookAt (file : Path) : Work σ Node := Work.onDisk (Disk.look (.metadata file) (·.stat file))

/-- Takes one entry of a directory, by its name. -/
def visit (config : Config) (store : ObjectStore σ) (dir : Path) (entry : RawText) :
    Work σ Unit := do
  Work.count Report.addEntry
  match entry.toString? with
  | none => pure ()
  | some name =>
    let c := Classification.ofName config name
    if c.isCandidate then
      let file := dir.join entry
      let node ← lookAt file
      if node.isFile then publish config store file name c else Work.log (.notRegular file)

/-- Takes what the listing of a directory gives next: a name, or the error that ends it. -/
def takeEntry (config : Config) (store : ObjectStore σ) (dir : Path)
    (item : Except FileError RawText) : Work σ Unit := do
  let entry ← Work.onDisk (Disk.look (.readEntry dir) fun _ => item)
  visit config store dir entry

def list (dir : Path) : Work σ FileSystem.Listing :=
  Work.onDisk (Disk.look (.readDirectory dir) (·.readDirectory dir))

/-- **Takes one directory.** -/
def processDirectory (config : Config) (store : ObjectStore σ) (dir : Path) : Work σ Unit := do
  Work.log (.scanning dir)
  Work.count Report.addDirectory
  let listing ← list dir
  listing.items.forM (takeEntry config store dir)

/-- **Takes all configured directories** and gives the counters. -/
def run (config : Config) (store : ObjectStore σ) : Work σ Report := do
  Work.count fun _ => .zero
  config.dirs.forM (processDirectory config store)
  pure (← get).report

end ArtifactCourier.Walk
