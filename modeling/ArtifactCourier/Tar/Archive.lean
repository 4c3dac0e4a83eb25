/-
  ArtifactCourier.Tar.Archive
  ──────────────────────────────────────
  **Archives: members one after the other.**

  A member is a header, with the blocks that continue it, and its data, filled up to whole
  blocks with zeros; two blocks of zeros end the archive.  `records?` reads the blocks back as
  they stand, `members?` applies the rules that an extractor follows: a long-name record names
  the member behind it, and the holes of a sparse member are zeros.
-/
import ArtifactCourier.Bytes
import ArtifactCourier.FileSystem.Operations
import ArtifactCourier.Tar.Header
import ArtifactCourier.Tar.MemberName

namespace ArtifactCourier.Tar

/-! ## §1. Writing. -/

/-- A header with the data behind it. -/
structure Member where
  header : Header
  data : ByteArray

/-- How many bytes fill the last block of `n`. -/
def fill (n : Nat) : Nat := (blockSize - n % blockSize) % blockSize

/-- The blocks that continue the header of a member. -/
def Member.extension (m : Member) : List UInt8 :=
  Tar.extension (m.header.kind.extents.drop maxExtents)

def Member.bytes (m : Member) : ByteArray :=
  m.header.bytes.toByteArray ++ m.extension.toByteArray ++ m.data ++ zeros (fill m.data.size)

/-- The two blocks that end an archive. -/
def ending : ByteArray := zeros (2 * blockSize)

/-- The bytes of members, without the end of the archive. -/
def membersBytes (members : List Member) : ByteArray :=
  members.foldl (fun out m => out ++ m.bytes) ByteArray.empty

/-- **The bytes of an archive.** -/
def archive (members : List Member) : ByteArray := membersBytes members ++ ending

/-- The name of the record that holds a long name. -/
def longNameMark : List UInt8 := (RawText.ofString "././@LongLink").bytes

/-- The record of a long name: the name and a zero byte. -/
def longNameRecord (name : List UInt8) : Member where
  header :=
    { name := longNameMark, mode := 0o644, user := 0, group := 0, size := name.length + 1,
      mtime := 0, kind := .longName, device := none }
  data := (name ++ [0]).toByteArray

/-- A member behind the record of its name, if it needs one. -/
def named (name : MemberName) (m : Member) : List Member :=
  match name.full with
  | some full => [longNameRecord full, m]
  | none => [m]

/-! ## §2. Members for files. -/

/-- The bits of a mode that say what kind of file it is. -/
def kindBits : NodeKind → Nat
  | .file _ => 0o100000
  | .directory _ _ => 0o040000
  | .symlink _ => 0o120000
  | .fifo => 0o010000
  | .socket => 0o140000
  | .nullDevice => 0o020000
  | .fullDevice => 0o020000

def timeWord (mtime : Int) : Nat := (mtime % 0x10000000000000000).toNat

/-- A stretch in front of others; empty ones are left out, and those that meet are one. -/
def addExtent (e : Extent) : List Extent → List Extent
  | [] => if e.length = 0 then [] else [e]
  | next :: rest =>
    if e.length = 0 then next :: rest
    else if next.offset = e.offset + e.length then ⟨e.offset, e.length + next.length⟩ :: rest
    else e :: next :: rest

/-- What is stored of some stretches that begin at `offset`. -/
def extentsFrom (offset : Nat) : List Stretch → List Extent
  | [] => []
  | .data bytes :: rest =>
    addExtent ⟨offset, bytes.size⟩ (extentsFrom (offset + bytes.size) rest)
  | .hole length :: rest => extentsFrom (offset + length) rest

/-- The stretches that are stored of a file with holes; an empty one behind them says where the
file ends if that is not where they end. -/
def sparseMap? (c : Content) : Option SparseMap :=
  let extents := extentsFrom 0 c.stretches
  if c.stored.size = c.size then none
  else if (extents.getLast?.map fun e => e.offset + e.length) = some c.size then
    some ⟨c.size, extents⟩
  else some ⟨c.size, extents ++ [⟨c.size, 0⟩]⟩

def headerOf (name : List UInt8) (n : Node) (owner : Owner) (size : Nat) (kind : MemberKind)
    (device : Option (Nat × Nat)) : Header where
  name := name
  mode := kindBits n.kind + n.mode
  user := owner.user.toNat
  group := owner.group.toNat
  size := size
  mtime := timeWord n.mtime
  kind := kind
  device := device

def fileMember (name : List UInt8) (n : Node) (owner : Owner) (c : Content) : Member :=
  match sparseMap? c with
  | some map => ⟨headerOf name n owner c.stored.size (.sparseFile map) none, c.stored⟩
  | none => ⟨headerOf name n owner c.size .file none, c.bytes⟩

def emptyMember (name : List UInt8) (n : Node) (owner : Owner) (kind : MemberKind)
    (device : Option (Nat × Nat)) : Member :=
  ⟨headerOf name n owner 0 kind device, ByteArray.empty⟩

/-- Why a node cannot be archived, and what was written before that showed. -/
structure Refusal where
  problem : Problem
  written : List Member

/-- A member under the name that a path gives it. -/
def underName (p : Path) (member : List UInt8 → Member) : Except Refusal (List Member) :=
  match MemberName.ofPath p with
  | .ok name => .ok (named name (member name.field))
  | .error (r, long) =>
    .error ⟨.memberName r.reason ⟨r.stored⟩, (long.map longNameRecord).toList⟩

/-- **The members that archive a node**: under the name `name`, or, for pipes and devices,
under the path that leads to it. -/
def membersOf (path : Path) (name : RawText) (n : Node) (owner : Owner) :
    Except Refusal (List Member) :=
  match n.kind with
  | .file content => underName ⟨name⟩ fun field => fileMember field n owner content
  | .directory _ _ => underName ⟨name⟩ fun field => emptyMember field n owner .directory none
  | .fifo => underName path fun field => emptyMember field n owner .fifo (some (0, 0))
  | .nullDevice => underName path fun field => emptyMember field n owner .device (some (1, 3))
  | .fullDevice => underName path fun field => emptyMember field n owner .device (some (1, 7))
  | .symlink _ | .socket => .error ⟨.socketMember path, []⟩

/-! ## §3. Reading. -/

/-- A header and its data, as they stand in an archive. -/
structure Record where
  name : List UInt8
  mode : Nat
  user : Nat
  group : Nat
  size : Nat
  mtime : Nat
  flag : UInt8
  /-- The magic number with the version behind it. -/
  magic : List UInt8
  /-- The stretches of a sparse member, and its real size. -/
  extents : List Extent
  realSize : Nat
  /-- How many blocks continue the header. -/
  continued : Nat
  data : ByteArray

def field (data : ByteArray) (first width : Nat) : List UInt8 :=
  (data.extract first (first + width)).toList

/-- The text of a field, up to the first zero byte. -/
def fieldText (data : ByteArray) (first width : Nat) : List UInt8 :=
  (field data first width).takeWhile (· != 0)

/-- The stretches in `room` fields: those that are not empty. -/
def readExtents (data : ByteArray) (room first : Nat) : List Extent :=
  (List.range room).filterMap fun i =>
    let at_ := first + 24 * i
    if (field data at_ 24).all (· == 0) then none
    else some ⟨readNumber (field data at_ 12), readNumber (field data (at_ + 12) 12)⟩

/-- Whether more stretches follow behind `room` fields. -/
def areContinued (data : ByteArray) (room first : Nat) : Bool :=
  byteAt data (first + 24 * room) != 0

/-- The stretches in the blocks that continue a header, and how many blocks there are. -/
def readExtension (data : ByteArray) : (steps : Nat) → (first : Nat) → List Extent × Nat
  | 0, _ => ([], 0)
  | steps + 1, first =>
    let here := readExtents data maxFurtherExtents first
    if areContinued data maxFurtherExtents first then
      let (later, blocks) := readExtension data steps (first + blockSize)
      (here ++ later, blocks + 1)
    else (here, 1)

/-- All stretches that a header lists, and how many blocks continue it. -/
def readStretches (data : ByteArray) (first : Nat) (flag : UInt8) : List Extent × Nat :=
  let here := readExtents data maxExtents (first + 386)
  if flag = MemberKind.sparseFlag ∧ areContinued data maxExtents (first + 386) then
    let (further, blocks) := readExtension data (data.size / blockSize) (first + blockSize)
    (here ++ further, blocks)
  else (here, 0)

/-- The record whose header begins at `first`. -/
def readRecord (data : ByteArray) (first : Nat) : Record :=
  let size := readNumber (field data (first + 124) 12)
  let flag := byteAt data (first + 156)
  let (extents, blocks) := readStretches data first flag
  let start := first + blockSize * (1 + blocks)
  { name := fieldText data first 100
    mode := readNumber (field data (first + 100) 8)
    user := readNumber (field data (first + 108) 8)
    group := readNumber (field data (first + 116) 8)
    size := size
    mtime := readNumber (field data (first + 136) 12)
    flag := flag
    magic := field data (first + 257) 8
    extents := extents
    realSize := readNumber (field data (first + 483) 12)
    continued := blocks
    data := data.extract start (start + size) }

/-- Whether a block of zeros begins at `first`. -/
def isZeroBlock (data : ByteArray) (first : Nat) : Bool :=
  (field data first blockSize).all (· == 0)

/-- The records from place `first` on.  Every record takes a block. -/
def recordsFrom? (data : ByteArray) : (steps : Nat) → (first : Nat) → Option (List Record)
  | 0, _ => none
  | steps + 1, first =>
    if first + blockSize > data.size then none
    else if isZeroBlock data first then
      if data.size = first + 2 * blockSize ∧ isZeroBlock data (first + blockSize) then some []
      else none
    else do
      let record := readRecord data first
      let next := first + blockSize * (1 + record.continued) + record.size + fill record.size
      let records ← recordsFrom? data steps next
      some (record :: records)

/-- **The records of an archive**, which two blocks of zeros must end. -/
def records? (data : ByteArray) : Option (List Record) :=
  recordsFrom? data (data.size / blockSize + 1) 0

/-- A file as an extractor makes it. -/
structure Extracted where
  name : List UInt8
  flag : UInt8
  mode : Nat
  mtime : Nat
  data : ByteArray

/-- The data with stretches put where they belong and zeros between; `out` is what was put
together, `taken` how much of the data was used. -/
def spread (data : ByteArray) (out : ByteArray) (taken : Nat) : List Extent → ByteArray
  | [] => out
  | e :: rest =>
    let out := out ++ zeros (e.offset - out.size)
    spread data (out ++ data.extract taken (taken + e.length)) (taken + e.length) rest

/-- The data of a record with its holes filled. -/
def Record.contents (r : Record) : ByteArray :=
  if r.flag = MemberKind.sparseFlag then
    let out := spread r.data ByteArray.empty 0 r.extents
    out ++ zeros (r.realSize - out.size)
  else r.data

/-- The flag of an extracted record: a sparse file is a file. -/
def Record.plainFlag (r : Record) : UInt8 :=
  if r.flag = MemberKind.sparseFlag then MemberKind.file.flag else r.flag

/-- The files that records stand for; `long` is a name that the next record takes. -/
def extractFrom (long : Option (List UInt8)) : List Record → List Extracted
  | [] => []
  | r :: rest =>
    if r.flag = MemberKind.longName.flag then
      extractFrom (some (r.data.toList.takeWhile (· != 0))) rest
    else
      ⟨long.getD r.name, r.plainFlag, r.mode, r.mtime, r.contents⟩ :: extractFrom none rest

/-- **The files that an extractor makes of an archive.** -/
def members? (data : ByteArray) : Option (List Extracted) :=
  (records? data).map (extractFrom none)

end ArtifactCourier.Tar
