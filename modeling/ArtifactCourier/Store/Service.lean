/-
  ArtifactCourier.Store.Service
  ──────────────────────────────────────
  **Running a conversation against a service.**

  A `Service` answers requests.  While a request is under way others may change the disk;
  `Service.meanwhile` says how.  `Service.run` carries a conversation out in a session:
  questions about the disk are answered by the disk, requests are recorded and answered by
  the service.
-/
import ArtifactCourier.Session
import ArtifactCourier.Store.Uploader

namespace ArtifactCourier.Store

/-- Someone who answers requests. -/
structure Service (σ : Type) where
  /-- The answer to a request, and the state after it. -/
  answer : Request → σ → Except ServiceError Reply × σ
  /-- The disk once a request is under way. -/
  meanwhile : Request → σ → FileSystem → FileSystem

namespace Service

variable {σ : Type}

def send (service : Service σ) (r : Request) : Work σ (Except ServiceError Reply) := do
  Work.emit (.request r)
  Work.step fun s =>
    let (reply, store) := service.answer r s.store
    (reply, { s with disk := service.meanwhile r s.store s.disk, store := store })

/-- **Carries a conversation out.** -/
def run (service : Service σ) {α : Type} : Exchange α → Work σ α
  | .done a => pure a
  | .size file next => do service.run (next (((← get).disk.stat file).map Node.size))
  | .openFile file next => do service.run (next ((← get).disk.openRead file))
  | .readAll id next => do service.run (next ((← get).disk.readAll id))
  | .readAt id offset length next => do
    service.run (next ((← get).disk.readAt id offset length))
  | .send r next => do service.run (next (← service.send r))
  | .log line next => do
    Work.log line
    service.run next

/-- **The store behind a service**, in one of its buckets. -/
def toObjectStore (service : Service σ) (bucket : String) : ObjectStore σ where
  upload file key := do
    Work.emit (.uploading key file)
    match ← service.run (Upload.file ⟨bucket, key⟩ file).run with
    | .ok () => pure ()
    | .error f => Work.fail f

end Service
end ArtifactCourier.Store
