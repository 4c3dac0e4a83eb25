/-
  ArtifactCourier.Path
  ──────────────────────────────────────
  **Paths: byte strings that slashes divide.**

  A path is kept as it was written, because messages show it that way.  Two views
  are taken of it.  `segments` are the bytes between slashes, which is what a walk
  through the file system follows.  `components` are what the path names: repeated
  slashes and inner dots say nothing and are left out, so `a/./b/` and `a/b` have
  the same components.
-/
import ArtifactCourier.Text.Raw

namespace ArtifactCourier

/-- A path, as it was written. -/
structure Path where
  /-- The written form. -/
  text : RawText
deriving DecidableEq, Repr, Inhabited

namespace Path

def slash : UInt8 := 0x2F

def dot : UInt8 := 0x2E

def ofString (s : String) : Path := ⟨RawText.ofString s⟩

def bytes (p : Path) : List UInt8 := p.text.bytes

def display (p : Path) : String := p.text.lossy

@[simp] theorem display_ofString (s : String) : (ofString s).display = s := by
  simp [display, ofString]

/-! ## §1. Segments. -/

/-- The stretches between slashes, in order: one more than there are slashes. -/
def segmentsOf : List UInt8 → List (List UInt8)
  | [] => [[]]
  | b :: bs =>
    if b = slash then [] :: segmentsOf bs
    else
      match segmentsOf bs with
      | [] => [[b]]
      | s :: ss => (b :: s) :: ss

/-- The segments before the last one that is not empty, and that one. -/
def lastStep (p : Path) : List (List UInt8) × List UInt8 :=
  match (segmentsOf p.bytes).reverse.dropWhile List.isEmpty with
  | [] => ([], [])
  | name :: before => (before.reverse, name)

/-- Whether the path starts at the root of the file system. -/
def isAbsolute (p : Path) : Bool := p.bytes.head? == some slash

def endsWithSlash (p : Path) : Bool := p.bytes.getLast? == some slash

/-! ## §2. Components. -/

/-- One step of a path. -/
inductive Component where
  /-- The root of the file system; only ever the first step. -/
  | root
  /-- The directory itself; only ever the first step. -/
  | here
  /-- The directory above. -/
  | up
  /-- An entry of that name. -/
  | entry (name : RawText)
deriving DecidableEq, Repr

def Component.bytes : Component → List UInt8
  | root => [slash]
  | here => [dot]
  | up => [dot, dot]
  | entry name => name.bytes

/-- A segment as a later step of a path, if it says anything there. -/
def stepOf (segment : List UInt8) : Option Component :=
  if segment = [] ∨ segment = [dot] then none
  else if segment = [dot, dot] then some .up
  else some (.entry ⟨segment⟩)

/-- The steps of the path.  A dot counts only where a relative path begins. -/
def components (p : Path) : List Component :=
  let segments := segmentsOf p.bytes
  if p.isAbsolute then .root :: segments.filterMap stepOf
  else if segments.head? = some [dot] then .here :: segments.filterMap stepOf
  else segments.filterMap stepOf

/-- The name of the entry that the path leads to, if its last step is an entry. -/
def fileName? (p : Path) : Option RawText :=
  match p.components.getLast? with
  | some (.entry name) => some name
  | _ => none

/-! ## §3. Building paths. -/

/-- The path of an entry of a directory.  An absolute name stands for itself, an empty
directory adds nothing, and a slash is put between only where there is none. -/
def join (dir : Path) (name : RawText) : Path :=
  if name.bytes.head? = some slash ∨ dir.bytes = [] then ⟨name⟩
  else if dir.endsWithSlash then ⟨dir.text ++ name⟩
  else ⟨dir.text ++ ⟨[slash]⟩ ++ name⟩

/-- The path that takes some steps. -/
def ofComponents (steps : List Component) : Path :=
  steps.foldl (fun p step => p.join ⟨step.bytes⟩) ⟨⟨[]⟩⟩

/-- The path without its last step; the root is not below anything. -/
def parent? (p : Path) : Option Path :=
  match p.components.reverse with
  | [] => none
  | .root :: _ => none
  | _ :: before => some (ofComponents before.reverse)

end Path
end ArtifactCourier
