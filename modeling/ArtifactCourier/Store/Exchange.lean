/-
  ArtifactCourier.Store.Exchange
  ──────────────────────────────────────
  **A conversation with the disk and the object store.**

  An `Exchange` is a program that asks questions, one after the other, and goes on
  according to the answers: it looks at the disk, it sends requests, it logs.  Nobody has
  answered yet.  So the same program can be run against a store, be followed request by
  request, or be interleaved with others.
-/
import ArtifactCourier.FileSystem.Node
import ArtifactCourier.Log
import ArtifactCourier.Store.Request

namespace ArtifactCourier.Store

/-- A program that asks the disk and the store. -/
inductive Exchange (α : Type) where
  /-- It is over. -/
  | done (a : α)
  /-- Asks for the size of the file that a path leads to. -/
  | size (file : Path) (next : Except FileError Nat → Exchange α)
  /-- Opens a file for reading. -/
  | openFile (file : Path) (next : Except FileError NodeId → Exchange α)
  /-- Reads all of an open file. -/
  | readAll (id : NodeId) (next : Except FileError ByteArray → Exchange α)
  /-- Reads at most `length` bytes of an open file from `offset` on. -/
  | readAt (id : NodeId) (offset length : Nat) (next : Except FileError ByteArray → Exchange α)
  /-- Sends a request. -/
  | send (r : Request) (next : Except ServiceError Reply → Exchange α)
  /-- Logs a line. -/
  | log (line : Log.Line) (next : Exchange α)

namespace Exchange

variable {α β : Type}

def bind : Exchange α → (α → Exchange β) → Exchange β
  | done a, f => f a
  | size file next, f => .size file fun answer => (next answer).bind f
  | openFile file next, f => .openFile file fun answer => (next answer).bind f
  | readAll id next, f => .readAll id fun answer => (next answer).bind f
  | readAt id offset length next, f => .readAt id offset length fun answer => (next answer).bind f
  | send r next, f => .send r fun answer => (next answer).bind f
  | log line next, f => .log line (next.bind f)

instance : Monad Exchange where
  pure := done
  bind := bind

@[simp] theorem pure_eq (a : α) : (pure a : Exchange α) = done a := rfl

@[simp] theorem bind_done (a : α) (f : α → Exchange β) : (done a >>= f) = f a := rfl

@[simp] theorem bind_send (r : Request) (next : Except ServiceError Reply → Exchange α)
    (f : α → Exchange β) : (send r next >>= f) = send r fun answer => next answer >>= f := rfl

/-- Ending changes nothing about a program. -/
theorem bind_pure (x : Exchange α) : (x >>= done) = x := by
  change x.bind done = x
  induction x with
  | done a => rfl
  | size file next ih => simp only [bind, ih]
  | openFile file next ih => simp only [bind, ih]
  | readAll id next ih => simp only [bind, ih]
  | readAt id offset length next ih => simp only [bind, ih]
  | send r next ih => simp only [bind, ih]
  | log line next ih => simp only [bind, ih]

/-- It does not matter how a sequence of programs is grouped. -/
theorem bind_assoc {γ : Type} (x : Exchange α) (f : α → Exchange β) (g : β → Exchange γ) :
    ((x >>= f) >>= g) = (x >>= fun a => f a >>= g) := by
  change (x.bind f).bind g = x.bind fun a => (f a).bind g
  induction x with
  | done a => rfl
  | size file next ih => simp only [bind, ih]
  | openFile file next ih => simp only [bind, ih]
  | readAll id next ih => simp only [bind, ih]
  | readAt id offset length next ih => simp only [bind, ih]
  | send r next ih => simp only [bind, ih]
  | log line next ih => simp only [bind, ih]

end Exchange
end ArtifactCourier.Store
