/-
  ArtifactCourier.Store.Rehearsal
  ──────────────────────────────────────
  **A service that answers by script.**

  A script says which requests fail and what happens to the disk meanwhile.  A request is
  picked out by its kind and by how many of that kind there have been.  All other requests
  succeed: an upload gets the id of the script, a part the tag `etag-` with its number.
-/
import ArtifactCourier.FileSystem.Edit
import ArtifactCourier.Store.Service

namespace ArtifactCourier.Store

/-- The place of a request in a script: the `n`-th of a kind, counted from 1. -/
structure Cue where
  kind : RequestKind
  n : Nat
deriving DecidableEq, Repr

/-- What happens in a rehearsal. -/
structure Script where
  /-- The id of every upload, if the service gives one. -/
  uploadId : Option String
  /-- The part that gets no tag. -/
  untagged : Option Nat
  failures : List (Cue × ServiceError)
  disturbances : List (Cue × List FileSystem.Edit)

/-- The script of a service that does all that is asked. -/
def Script.smooth : Script := ⟨some "upload-1", none, [], []⟩

namespace Rehearsal

/-- The place of the next request of a kind after those of `sent`. -/
def cue (kind : RequestKind) (sent : List RequestKind) : Cue := ⟨kind, sent.count kind + 1⟩

/-- The answer to a request that does not fail. -/
def success (script : Script) : Request → Reply
  | .createMultipart .. => script.uploadId
  | .uploadPart _ _ number _ _ =>
    if script.untagged = some number then none else some ("etag-" ++ toString number)
  | _ => none

/-- **The service that follows a script**; its state are the kinds of the requests so far. -/
def service (script : Script) : Service (List RequestKind) where
  answer r sent :=
    let at_ := cue r.kind sent
    let answer :=
      match script.failures.find? (·.1 == at_) with
      | some (_, e) => .error e
      | none => .ok (success script r)
    (answer, r.kind :: sent)
  meanwhile r sent disk :=
    let at_ := cue r.kind sent
    (script.disturbances.filter (·.1 == at_)).foldl (fun disk d => disk.applyEdits d.2) disk

end Rehearsal
end ArtifactCourier.Store
