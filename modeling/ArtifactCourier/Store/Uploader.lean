/-
  ArtifactCourier.Store.Uploader
  ──────────────────────────────────────
  **How a file is stored.**

  A file of at most `Defaults.largeFileThreshold` bytes is stored by one request.  A
  larger one is sent in parts, one at a time and in order: each part is read and sent only
  when the one before it has got its tag.  When anything goes wrong once an upload has
  been opened for parts, it is aborted, and the failure of the parts is what is told even
  if aborting fails too.  An upload that cannot be completed is not aborted.
-/
import ArtifactCourier.Store.Exchange
import ArtifactCourier.Store.Parts

namespace ArtifactCourier.Store

/-- A conversation that may fail. -/
abbrev Upload (α : Type) : Type := ExceptT Failure Exchange α

namespace Upload

/-! ## §1. Questions. -/

def sizeOf (file : Path) : Upload (Except FileError Nat) :=
  ExceptT.lift (.size file .done)

def openFile (file : Path) : Upload (Except FileError NodeId) :=
  ExceptT.lift (.openFile file .done)

def readAll (id : NodeId) : Upload (Except FileError ByteArray) :=
  ExceptT.lift (.readAll id .done)

def readAt (id : NodeId) (offset length : Nat) : Upload (Except FileError ByteArray) :=
  ExceptT.lift (.readAt id offset length .done)

def send (r : Request) : Upload (Except ServiceError Reply) :=
  ExceptT.lift (.send r .done)

def log (line : Log.Line) : Upload Unit :=
  ExceptT.lift (.log line (.done ()))

/-- What a question was answered with; a refusal is told as the cause of `p`. -/
def orFail {α : Type} (p : Problem) : Except FileError α → Upload α
  | .ok a => pure a
  | .error e => throw ((Failure.ofFile e).within p)

/-! ## §2. Small files. -/

def small (address : Address) (file : Path) (size : Nat) : Upload Unit := do
  let refused (reason : String) : Upload Unit :=
    throw (.ofProblem (.send file address.bucket address.key reason))
  let id ← orFail (.openToSend file) (← openFile file)
  match ← readAll id with
  | .error e => refused e.message
  | .ok body =>
    match ← send (.put address size body) with
    | .error e => refused e.text
    | .ok _ => pure ()

/-! ## §3. Large files. -/

/-- The bytes of part `number`, all of them. -/
def readPart (file : Path) (id : NodeId) (size number : Nat) : Upload ByteArray := do
  let length := partLength size number
  let body ← orFail (.readPart number file) (← readAt id (partStart number) length)
  if body.size < length then throw ⟨.readPart number file, [.earlyEof]⟩ else pure body

/-- Sends part `number` and gives its tag. -/
def sendPart (address : Address) (uploadId : String) (number : Nat) (body : ByteArray) :
    Upload StoredPart := do
  match ← send (.part address uploadId number body) with
  | .error e => throw (.ofProblem (.sendPart number e.text))
  | .ok none => throw (.ofProblem .noETag)
  | .ok (some tag) => pure ⟨number, tag⟩

/-- Sends `left` parts from `number` on. -/
def sendPartsFrom (address : Address) (uploadId : String) (file : Path) (id : NodeId) (size : Nat) :
    (number left : Nat) → Upload (List StoredPart)
  | _, 0 => pure []
  | number, left + 1 => do
    let body ← readPart file id size number
    let stored ← sendPart address uploadId number body
    let rest ← sendPartsFrom address uploadId file id size (number + 1) left
    pure (stored :: rest)

/-- Opens a file and sends all its parts. -/
def sendParts (address : Address) (uploadId : String) (file : Path) (size : Nat) :
    Upload (List StoredPart) := do
  let id ← orFail (.openParts file) (← openFile file)
  sendPartsFrom address uploadId file id size 1 (partCount size)

def complete (address : Address) (uploadId : String) (parts : List StoredPart) : Upload Unit := do
  match ← send (.completeMultipart address uploadId parts) with
  | .error e => throw ⟨.completeMultipart, e.causes⟩
  | .ok _ => pure ()

/-- Gives an upload up.  That this fails is only logged. -/
def abort (address : Address) (uploadId : String) : Upload Unit := do
  match ← send (.abortMultipart address uploadId) with
  | .error e => log (.abortFailed address.key e.text)
  | .ok _ => pure ()

def create (address : Address) : Upload String := do
  match ← send (.create address) with
  | .error e => throw ⟨.startMultipart, e.causes⟩
  | .ok none => throw (.ofProblem .noUploadId)
  | .ok (some uploadId) => pure uploadId

def large (address : Address) (file : Path) (size : Nat) : Upload Unit := do
  let uploadId ← create address
  let parts ← tryCatch (sendParts address uploadId file size) fun f => do
    abort address uploadId
    throw (f.within .partsAborted)
  complete address uploadId parts

/-! ## §4. Any file. -/

/-- **Stores the file that a path leads to.** -/
def file (address : Address) (path : Path) : Upload Unit := do
  let size ← orFail (.metadata path) (← sizeOf path)
  if size > Defaults.largeFileThreshold then large address path size else small address path size

end Upload
end ArtifactCourier.Store
