/-
  ArtifactCourier.FileSystem.Resolve
  ──────────────────────────────────────
  **Following a path.**

  A path is followed segment by segment.  Every step but the last has to lead to a
  directory, through symbolic links if need be; at the last step a link is followed only
  if that is asked for.  At most forty links are followed, so a loop of links ends in an
  error.  Where nothing has the last name, the directory that could hold it is known.
-/
import ArtifactCourier.FileSystem.Node

namespace ArtifactCourier

/-- Where a path leads. -/
inductive Resolved where
  /-- To a node. -/
  | found (id : NodeId)
  /-- To a name that is free in a directory; `slash` says whether a slash follows the name. -/
  | absent (dir : NodeId) (name : RawText) (slash : Bool)
deriving DecidableEq, Repr

namespace FileSystem

/-- How many symbolic links are followed at most. -/
def maxLinks : Nat := 40

def maxNameLength : Nat := 255

/-- How long a path may be, with the byte that ends it. -/
def maxPathLength : Nat := 4096

def startOf (fs : FileSystem) (p : Path) : NodeId :=
  if p.isAbsolute then root else fs.workingDirectory

def parentOf (fs : FileSystem) (dir : NodeId) : NodeId :=
  match fs.kind? dir with
  | some (.directory _ parent) => parent
  | _ => dir

def isDirectoryAt (fs : FileSystem) (id : NodeId) : Bool := (fs.node? id).any (·.isDirectory)

def linkTarget? (fs : FileSystem) (id : NodeId) : Option Path :=
  match fs.kind? id with
  | some (.symlink target) => some target
  | _ => none

def onlySlashes (segments : List (List UInt8)) : Bool := segments.all List.isEmpty

/-- Follows segments from a directory on; `links` are the symbolic links that may still be
followed. -/
def follow (fs : FileSystem) (followLast : Bool) (links : Nat) (dir : NodeId) :
    List (List UInt8) → Except FileError Resolved
  | [] => .ok (.found dir)
  | segment :: rest =>
    if !fs.isDirectoryAt dir then .error .notDirectory
    else if segment = [] ∨ segment = [Path.dot] then follow fs followLast links dir rest
    else if segment = [Path.dot, Path.dot] then
      follow fs followLast links (fs.parentOf dir) rest
    else if segment.length > maxNameLength then .error .nameTooLong
    else
      match fs.child? dir ⟨segment⟩ with
      | none =>
        if onlySlashes rest then .ok (.absent dir ⟨segment⟩ (!rest.isEmpty))
        else .error .notFound
      | some id =>
        match fs.linkTarget? id with
        | some target =>
          if rest.isEmpty && !followLast then .ok (.found id)
          else
            match links with
            | 0 => .error .linkLoop
            | links + 1 =>
              follow fs followLast links (if target.isAbsolute then root else dir)
                (Path.segmentsOf target.bytes ++ rest)
        | none =>
          if rest.isEmpty || fs.isDirectoryAt id then follow fs followLast links id rest
          else .error .notDirectory
termination_by segments => (links, segments.length)

/-- Refuses what cannot be a path at all. -/
def checkPath (p : Path) : Except FileError Unit :=
  if p.bytes.contains 0 then .error .nulByte
  else if p.bytes.isEmpty then .error .notFound
  else if p.bytes.length ≥ maxPathLength then .error .nameTooLong
  else .ok ()

/-- **Where a path leads.** -/
def resolve (fs : FileSystem) (p : Path) (followLast : Bool) : Except FileError Resolved := do
  checkPath p
  fs.follow followLast maxLinks (fs.startOf p) (Path.segmentsOf p.bytes)

/-- The directory in which the last step of a path is taken, and the name of that step, whether
or not it leads to anything. -/
def holder (fs : FileSystem) (p : Path) : Except FileError (NodeId × RawText) := do
  checkPath p
  let (before, name) := p.lastStep
  match ← fs.follow true maxLinks (fs.startOf p) before with
  | .found dir => if fs.isDirectoryAt dir then .ok (dir, ⟨name⟩) else .error .notDirectory
  | .absent _ _ _ => .error .notFound

/-- The node that a path leads to, through symbolic links. -/
def locate (fs : FileSystem) (p : Path) : Except FileError NodeId := do
  match ← fs.resolve p true with
  | .found id => .ok id
  | .absent _ _ _ => .error .notFound

def stat (fs : FileSystem) (p : Path) : Except FileError Node := do
  let id ← fs.locate p
  match fs.node? id with
  | some n => .ok n
  | none => .error .notFound

/-- Whom the node belongs to that a path leads to. -/
def ownerAt (fs : FileSystem) (p : Path) : Owner := (fs.locate p).toOption.elim .root fs.owners

def doesExist (fs : FileSystem) (p : Path) : Bool := (fs.stat p).toBool

end FileSystem
end ArtifactCourier
