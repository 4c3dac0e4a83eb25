/-
  ArtifactCourier.Store.Request
  ──────────────────────────────────────
  **What is asked of the object store, and what it answers.**

  A small file is stored by one request.  A large one is stored in parts: one request
  opens an upload and is answered with its id, one request for each part is answered
  with a tag, and the upload is either completed by naming all parts with their tags, or
  aborted.
-/
import ArtifactCourier.Defaults
import ArtifactCourier.Failure

namespace ArtifactCourier.Store

/-! ## §1. Requests. -/

/-- Where an object is. -/
structure Address where
  bucket : String
  key : String
deriving DecidableEq, Repr

/-- What is laid down about an object when it is written. -/
structure Attributes where
  acl : String
  contentType : String
deriving DecidableEq, Repr

/-- The attributes of every artifact. -/
def Attributes.artifact : Attributes := ⟨Defaults.objectAcl, Defaults.objectContentType⟩

/-- A part that was stored, and the tag it got. -/
structure StoredPart where
  number : Nat
  tag : String
deriving DecidableEq, Repr

/-- A request to the object store. -/
inductive Request where
  /-- Stores an object. -/
  | putObject (address : Address) (attributes : Attributes) (contentLength : Int) (body : ByteArray)
  /-- Opens an upload in parts. -/
  | createMultipart (address : Address) (attributes : Attributes)
  /-- Sends a part of an upload. -/
  | uploadPart (address : Address) (uploadId : String) (number : Nat) (contentLength : Int)
      (body : ByteArray)
  /-- Puts the parts together to an object. -/
  | completeMultipart (address : Address) (uploadId : String) (parts : List StoredPart)
  /-- Gives an upload up. -/
  | abortMultipart (address : Address) (uploadId : String)

/-- The kinds of requests. -/
inductive RequestKind where
  | putObject
  | createMultipart
  | uploadPart
  | completeMultipart
  | abortMultipart
deriving DecidableEq, Repr

def RequestKind.name : RequestKind → String
  | putObject => "PutObject"
  | createMultipart => "CreateMultipartUpload"
  | uploadPart => "UploadPart"
  | completeMultipart => "CompleteMultipartUpload"
  | abortMultipart => "AbortMultipartUpload"

def RequestKind.all : List RequestKind :=
  [putObject, createMultipart, uploadPart, completeMultipart, abortMultipart]

def RequestKind.ofName? (name : String) : Option RequestKind := all.find? (·.name == name)

namespace Request

def kind : Request → RequestKind
  | putObject .. => .putObject
  | createMultipart .. => .createMultipart
  | uploadPart .. => .uploadPart
  | completeMultipart .. => .completeMultipart
  | abortMultipart .. => .abortMultipart

def address : Request → Address
  | putObject address .. => address
  | createMultipart address .. => address
  | uploadPart address .. => address
  | completeMultipart address .. => address
  | abortMultipart address .. => address

/-- A length as the signed 64-bit number that a request declares. -/
def declaredLength (size : Nat) : Int := Int.bmod size 0x10000000000000000

/-- Lengths that a file can have are declared as they are. -/
theorem declaredLength_of_lt {size : Nat} (h : size < 0x8000000000000000) : declaredLength size = size := by
  unfold declaredLength
  exact Int.bmod_eq_of_le (by omega) (by omega)

/-- The request that stores a file of `size` bytes as an object. -/
def put (address : Address) (size : Nat) (body : ByteArray) : Request :=
  .putObject address .artifact (declaredLength size) body

/-- The request that opens an upload. -/
def create (address : Address) : Request := .createMultipart address .artifact

/-- The request that sends a part. -/
def part (address : Address) (uploadId : String) (number : Nat) (body : ByteArray) : Request :=
  .uploadPart address uploadId number (declaredLength body.size) body

/-- The length that a request declares for its body, and the body. -/
def body? : Request → Option (Int × ByteArray)
  | putObject _ _ contentLength body => some (contentLength, body)
  | uploadPart _ _ _ contentLength body => some (contentLength, body)
  | _ => none

end Request

/-! ## §2. Answers. -/

/-- What an accepted request is answered with: the id of the upload that was opened, the tag of
the part that was stored, or nothing. -/
abbrev Reply := Option String

/-- Why a request failed. -/
inductive ServiceError where
  /-- There was no answer. -/
  | connection (text : String)
  /-- The service answered that it refuses. -/
  | refused (status : Nat) (body : String)
deriving DecidableEq, Repr

namespace ServiceError

def text : ServiceError → String
  | connection text => text
  | refused _ body => "Request ID: None Body: " ++ body

/-- A failed request as the causes of a failure: a broken connection is told by the client and
again by the layer below it. -/
def causes : ServiceError → List Problem
  | connection text => [.store text, .store text]
  | refused status body => [.store (text (refused status body))]

end ServiceError
end ArtifactCourier.Store
