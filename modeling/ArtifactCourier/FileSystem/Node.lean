/-
  ArtifactCourier.FileSystem.Node
  ──────────────────────────────────────
  **The files on a disk.**

  A file system is a table of nodes.  A directory names nodes by their numbers, so a file
  that is open stays what it is when its name is taken away or given to another file.
  Numbers are never used again: what no directory names any more is simply left.

  The order of a directory's entries is the order in which the directory is listed.
-/
import ArtifactCourier.Failure
import ArtifactCourier.FileSystem.Content

namespace ArtifactCourier

abbrev NodeId := Nat

/-- An entry of a directory. -/
structure DirEntry where
  name : RawText
  node : NodeId
deriving DecidableEq, Repr

/-- What a node is. -/
inductive NodeKind where
  /-- A regular file. -/
  | file (content : Content)
  /-- A directory, with the directory that holds it. -/
  | directory (entries : List DirEntry) (parent : NodeId)
  | symlink (target : Path)
  | fifo
  | socket
  /-- The device that takes everything and keeps nothing. -/
  | nullDevice
  /-- The device that has no room left. -/
  | fullDevice

/-- A node: what it is, its permission bits and the time of its last change in seconds. -/
structure Node where
  kind : NodeKind
  mode : Nat
  mtime : Int

namespace Node

def fileMode : Nat := 0o644

def directoryMode : Nat := 0o755

def file (content : Content) : Node := ⟨.file content, fileMode, 0⟩

def directory (parent : NodeId) : Node := ⟨.directory [] parent, directoryMode, 0⟩

def isDirectory (n : Node) : Bool := n.kind matches .directory _ _

def isFile (n : Node) : Bool := n.kind matches .file _

def isSymlink (n : Node) : Bool := n.kind matches .symlink _

/-- The number of bytes of a regular file; other nodes have no size of their own. -/
def size (n : Node) : Nat :=
  match n.kind with
  | .file content => content.size
  | _ => 0

end Node

/-- Whom a file belongs to. -/
structure Owner where
  user : UInt32
  group : UInt32
deriving DecidableEq, Repr

/-- The one to whom everything belongs. -/
def Owner.root : Owner := ⟨0, 0⟩

/-- A file system, as a running program sees it. -/
structure FileSystem where
  /-- The nodes; the root is number 0. -/
  nodes : Array Node
  /-- The directory that relative paths start from. -/
  workingDirectory : NodeId
  /-- The written form of its path from the root. -/
  workingPath : Path
  /-- Where temporary files go. -/
  tempPath : Path
  /-- Whom the nodes belong to. -/
  owners : NodeId → Owner := fun _ => .root
  /-- After how many names the listing of a directory breaks off, and why. -/
  breaks : NodeId → Option (Nat × FileError) := fun _ => none
  /-- How many bytes of a file arrive at once from a place on, if more are asked for. -/
  arrivals : NodeId → Nat → Nat := fun _ _ => 0x7FFFF000

namespace FileSystem

def root : NodeId := 0

def node? (fs : FileSystem) (id : NodeId) : Option Node := fs.nodes[id]?

def kind? (fs : FileSystem) (id : NodeId) : Option NodeKind := (fs.node? id).map (·.kind)

/-- The entries of a directory; other nodes have none. -/
def entries (fs : FileSystem) (id : NodeId) : List DirEntry :=
  match fs.kind? id with
  | some (.directory entries _) => entries
  | _ => []

/-- The names in a directory. -/
def names (fs : FileSystem) (id : NodeId) : List RawText := (fs.entries id).map (·.name)

/-- The node that an entry of a directory names. -/
def child? (fs : FileSystem) (dir : NodeId) (name : RawText) : Option NodeId :=
  ((fs.entries dir).find? (·.name == name)).map (·.node)

/-- The same file system with another node in place of number `id`. -/
def setNode (fs : FileSystem) (id : NodeId) (n : Node) : FileSystem :=
  { fs with nodes := fs.nodes.setIfInBounds id n }

/-- A new node, and its number. -/
def addNode (fs : FileSystem) (n : Node) : NodeId × FileSystem :=
  (fs.nodes.size, { fs with nodes := fs.nodes.push n })

/-- The order of byte strings. -/
def bytesBefore : List UInt8 → List UInt8 → Bool
  | _, [] => false
  | [], _ :: _ => true
  | a :: as, b :: bs => a < b || (a == b && bytesBefore as bs)

/-- The entries with a new one in front of the first greater name. -/
def insertEntry (e : DirEntry) : List DirEntry → List DirEntry
  | [] => [e]
  | f :: rest =>
    if bytesBefore e.name.bytes f.name.bytes then e :: f :: rest else f :: insertEntry e rest

def setEntries (fs : FileSystem) (dir : NodeId) (change : List DirEntry → List DirEntry) :
    FileSystem :=
  match fs.node? dir with
  | some ⟨.directory entries parent, mode, mtime⟩ =>
    fs.setNode dir ⟨.directory (change entries) parent, mode, mtime⟩
  | _ => fs

def link (fs : FileSystem) (dir : NodeId) (name : RawText) (id : NodeId) : FileSystem :=
  fs.setEntries dir (insertEntry ⟨name, id⟩)

def unlink (fs : FileSystem) (dir : NodeId) (name : RawText) : FileSystem :=
  fs.setEntries dir fun entries => entries.filter (·.name != name)

/-- A new node with a name in a directory, and its number. -/
def create (fs : FileSystem) (dir : NodeId) (name : RawText) (n : Node) : NodeId × FileSystem :=
  let (id, fs) := fs.addNode n
  (id, fs.link dir name id)

/-- What was inserted and is filtered out again leaves the entries as they were. -/
theorem filter_insertEntry {e : DirEntry} {entries : List DirEntry}
    (fresh : ∀ f ∈ entries, f.name ≠ e.name) :
    (insertEntry e entries).filter (·.name != e.name) = entries := by
  induction entries with
  | nil => simp [insertEntry]
  | cons f rest ih =>
    have hf : f.name ≠ e.name := fresh f (by simp)
    have hrest : ∀ g ∈ rest, g.name ≠ e.name := fun g hg => fresh g (by simp [hg])
    have kept : rest.filter (·.name != e.name) = rest :=
      List.filter_eq_self.2 fun g hg => by simpa using hrest g hg
    simp only [insertEntry]
    split
    · simp [hf, kept]
    · simp [hf, ih hrest]

end FileSystem
end ArtifactCourier
