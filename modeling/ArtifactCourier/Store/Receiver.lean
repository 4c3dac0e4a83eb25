/-
  ArtifactCourier.Store.Receiver
  ──────────────────────────────────────
  **Stores that take a file as a whole.**

  A receiver is handed the bytes of a file together with the key and decides whether it
  takes them.  The `shelf` is the receiver that keeps, for every key, what was put there
  last, except that it refuses some keys.
-/
import ArtifactCourier.FileSystem.Edit
import ArtifactCourier.Session

namespace ArtifactCourier.Store

/-- Someone who takes files. -/
structure Receiver (σ : Type) where
  /-- The decision on a file that is handed over, and the state after it. -/
  receive : String → Path → ByteArray → σ → Except Failure Unit × σ
  /-- The disk once a file was handed over. -/
  meanwhile : String → FileSystem → FileSystem

/-- **The store of a receiver.**  A file that cannot be read is not handed over. -/
def Receiver.toObjectStore {σ : Type} (r : Receiver σ) : ObjectStore σ where
  upload file key := do
    match (← get).disk.bytesAt file with
    | .error e => Work.fail (.ofFile e)
    | .ok content =>
      Work.emit (.handedOver key file content)
      let decision ← Work.step fun s =>
        let (decision, store) := r.receive key file content s.store
        (decision, { s with disk := r.meanwhile key s.disk, store := store })
      match decision with
      | .ok () => pure ()
      | .error f => Work.fail f

/-- An object, and the file that it came from. -/
structure Stored where
  key : String
  file : Path
  content : ByteArray

/-- The objects of a shelf, the newest first; at most one for each key. -/
abbrev Shelf : Type := List Stored

namespace Shelf

/-- The shelf with an object in place of the one at its key. -/
def put (shelf : Shelf) (o : Stored) : Shelf := o :: shelf.filter (·.key != o.key)

def get? (shelf : Shelf) (key : String) : Option Stored := shelf.find? (·.key == key)

@[simp] theorem get?_put_self (shelf : Shelf) (o : Stored) :
    (shelf.put o).get? o.key = some o := by
  simp [get?, put]

/-- What is at other keys stays. -/
theorem get?_put_of_ne (shelf : Shelf) {o : Stored} {key : String} (h : o.key ≠ key) :
    (shelf.put o).get? key = shelf.get? key := by
  have other : (o.key == key) = false := by simpa using h
  simp only [get?, put, List.find?_cons, other, List.find?_filter]
  congr 1
  funext s
  by_cases hs : s.key = key
  · simp [hs, Ne.symm h]
  · simp [hs]

/-- The receiver that puts everything on a shelf but what goes to the keys of `refusals`, and
that is disturbed as `disturbances` say. -/
def receiver (refusals : List (String × String))
    (disturbances : List (String × List FileSystem.Edit)) : Receiver Shelf where
  receive key file content shelf :=
    match refusals.find? (·.1 == key) with
    | some (_, message) => (.error (.ofProblem (.store message)), shelf)
    | none => (.ok (), shelf.put ⟨key, file, content⟩)
  meanwhile key disk :=
    (disturbances.filter (·.1 == key)).foldl (fun disk d => disk.applyEdits d.2) disk

end Shelf
end ArtifactCourier.Store
