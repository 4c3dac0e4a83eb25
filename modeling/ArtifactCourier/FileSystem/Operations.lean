/-
  ArtifactCourier.FileSystem.Operations
  ──────────────────────────────────────
  **Opening, reading, writing, making and removing.**

  Opening gives the number of a node, which stays good whatever happens to its name.
  Operations that change the file system give the changed one; those that are refused
  change nothing.

  What a path leads to decides whether an operation is refused.  Permission bits stand in
  the way of nobody, room lacks on one device only, and of the errors of a device there
  are those that end a listing.
-/
import ArtifactCourier.FileSystem.Resolve

namespace ArtifactCourier.FileSystem

/-! ## §1. Reading. -/

/-- Opens a file or directory for reading.  A socket cannot be opened. -/
def openRead (fs : FileSystem) (p : Path) : Except FileError NodeId := do
  let id ← fs.locate p
  match fs.kind? id with
  | some .socket => .error .noDevice
  | some _ => .ok id
  | none => .error .notFound

/-- All bytes of an open file.  A pipe that nobody writes to has none. -/
def readAll (fs : FileSystem) (id : NodeId) : Except FileError ByteArray :=
  match fs.kind? id with
  | some (.file content) => .ok content.bytes
  | some (.directory _ _) => .error .isDirectory
  | some _ => .ok ByteArray.empty
  | none => .error .notFound

/-- At most `length` bytes of an open file from `offset` on. -/
def readAt (fs : FileSystem) (id : NodeId) (offset length : Nat) : Except FileError ByteArray :=
  (fs.readAll id).map fun data => data.extract offset (offset + length)

/-- How many bytes come of each read of at most `most` bytes of an open file, by its place. -/
def arriving (fs : FileSystem) (id : NodeId) (most offset : Nat) : Nat :=
  min most (fs.arrivals id offset)

/-- All bytes of an open file, in the pieces in which reads of at most `most` bytes get them. -/
def readPieces (fs : FileSystem) (id : NodeId) (most : Nat) :
    Except FileError (List ByteArray) :=
  (fs.readAll id).map fun data => piecesFrom (fs.arriving id most) data 0

/-- All bytes of the file that a path leads to. -/
def bytesAt (fs : FileSystem) (p : Path) : Except FileError ByteArray := do
  let id ← fs.openRead p
  fs.readAll id

/-- What reading a directory gives: its names, or those in front of an error that ends it. -/
structure Listing where
  names : List RawText
  ending : Except FileError Unit

/-- The answers to the requests for one name after the other. -/
def Listing.items (l : Listing) : List (Except FileError RawText) :=
  l.names.map .ok ++
    match l.ending with
    | .ok _ => []
    | .error e => [.error e]

def listing (fs : FileSystem) (id : NodeId) : Listing :=
  match fs.breaks id with
  | none => ⟨fs.names id, .ok ()⟩
  | some (count, e) => ⟨(fs.names id).take count, .error e⟩

/-- Opens a directory, to read its names one after the other. -/
def readDirectory (fs : FileSystem) (p : Path) : Except FileError Listing := do
  let id ← fs.locate p
  if fs.isDirectoryAt id then .ok (fs.listing id) else .error .notDirectory

/-- The names in a directory, in the order of the listing, if it does not break off. -/
def listDirectory (fs : FileSystem) (p : Path) : Except FileError (List RawText) := do
  let l ← fs.readDirectory p
  l.ending
  pure l.names

/-! ## §2. Writing. -/

def setContent (fs : FileSystem) (id : NodeId) (content : Content) : FileSystem :=
  match fs.node? id with
  | some ⟨.file _, mode, mtime⟩ => fs.setNode id ⟨.file content, mode, mtime⟩
  | _ => fs

/-- Opens a file for writing: an existing one loses its contents, a missing one is made.  What
a slash follows is no file. -/
def openWrite (fs : FileSystem) (p : Path) : Except FileError (NodeId × FileSystem) := do
  if p.endsWithSlash then
    let _ ← fs.holder p
    .error .isDirectory
  else
    match ← fs.resolve p true with
    | .found id =>
      match fs.kind? id with
      | some (.directory _ _) => .error .isDirectory
      | some .socket => .error .noDevice
      | some _ => .ok (id, fs.setContent id .empty)
      | none => .error .notFound
    | .absent dir name slash =>
      if slash then .error .isDirectory else .ok (fs.create dir name (Node.file .empty))

/-- Writes all of an open file at once. -/
def writeAll (fs : FileSystem) (id : NodeId) (data : ByteArray) : Except FileError FileSystem :=
  match fs.kind? id with
  | some .fullDevice => if data.isEmpty then .ok fs else .error .noSpace
  | _ => .ok (fs.setContent id (.ofBytes data))

def writeFile (fs : FileSystem) (p : Path) (data : ByteArray) : Except FileError FileSystem := do
  let (id, fs) ← fs.openWrite p
  fs.writeAll id data

/-- A file with `size` bytes: the rest is cut off, or zeros that take no room are added. -/
def resize (fs : FileSystem) (p : Path) (size : Nat) : Except FileError FileSystem := do
  let id ← fs.locate p
  match fs.kind? id with
  | some (.file content) => .ok (fs.setContent id (content.resize size))
  | some (.directory _ _) => .error .isDirectory
  | some .socket => .error .noDevice
  | _ => .error .invalid

/-! ## §3. Making and removing. -/

/-- Whether a segment names an entry of a directory, not a directory that is there anyway. -/
def isEntryName (name : RawText) : Bool :=
  name.bytes ≠ [] && name.bytes ≠ [Path.dot] && name.bytes ≠ [Path.dot, Path.dot]

/-- Gives a new node a name that must be free; a slash may follow that of a directory. -/
def makeNode (fs : FileSystem) (p : Path) (n : NodeId → Node) : Except FileError FileSystem := do
  let (dir, name) ← fs.holder p
  if !isEntryName name then .error .alreadyExists
  else if name.bytes.length > maxNameLength then .error .nameTooLong
  else if (fs.child? dir name).isSome then .error .alreadyExists
  else if p.endsWithSlash && !(n dir).isDirectory then .error .notFound
  else .ok (fs.create dir name (n dir)).2

def makeDirectory (fs : FileSystem) (p : Path) : Except FileError FileSystem :=
  fs.makeNode p Node.directory

/-- Makes a symbolic link.  Its target need not exist, but has to be a path. -/
def makeSymlink (fs : FileSystem) (p target : Path) : Except FileError FileSystem := do
  checkPath target
  fs.makeNode p fun _ => ⟨.symlink target, 0o777, 0⟩

def makeSocket (fs : FileSystem) (p : Path) : Except FileError FileSystem :=
  (fs.makeNode p fun _ => ⟨.socket, Node.directoryMode, 0⟩).mapError fun e =>
    if e = .alreadyExists then .addressInUse else e

/-- Takes away the name that a path ends in; a directory goes with all it holds, a symbolic
link goes alone. -/
def remove (fs : FileSystem) (p : Path) : Except FileError FileSystem := do
  match ← fs.resolve p false with
  | .absent _ _ _ => .error .notFound
  | .found id =>
    let (dir, name) ← fs.holder p
    if fs.child? dir name = some id then .ok (fs.unlink dir name) else .error .invalid

/-- Takes away a directory with all it holds, or a symbolic link; nothing else. -/
def removeTree (fs : FileSystem) (p : Path) : Except FileError FileSystem := do
  match ← fs.resolve p false with
  | .absent _ _ _ => .error .notFound
  | .found id =>
    if (fs.node? id).any fun n => n.isDirectory || n.isSymlink then fs.remove p
    else .error .notDirectory

/-- The path from the root that a path stands for. -/
def absolute (fs : FileSystem) (p : Path) : Path :=
  if p.isAbsolute then p else fs.workingPath.join p.text

/-- Sets permission bits and time of what a path leads to. -/
def setAttributes (fs : FileSystem) (p : Path) (mode : Nat) (mtime : Int) :
    Except FileError FileSystem := do
  let id ← fs.locate p
  match fs.node? id with
  | some n => .ok (fs.setNode id { n with mode := mode, mtime := mtime })
  | none => .error .notFound

/-! ## §4. Looking. -/

/-- All entries below a directory, depth first, with their paths from there.  A tree is no
deeper than it has nodes. -/
def treeFrom (fs : FileSystem) : (depth : Nat) → (within : Path) → NodeId → List (Path × NodeId)
  | 0, _, _ => []
  | depth + 1, within, dir =>
    (fs.entries dir).flatMap fun e =>
      let p := within.join e.name
      (p, e.node) :: fs.treeFrom depth p e.node

/-- All that is in the working directory. -/
def tree (fs : FileSystem) : List (Path × NodeId) :=
  fs.treeFrom fs.nodes.size ⟨⟨[]⟩⟩ fs.workingDirectory

end ArtifactCourier.FileSystem
