/-
  ArtifactCourier.Tar.MemberName
  ──────────────────────────────────────
  **Paths as names of archive members.**

  A member's name is relative and does not lead upward; dots and repeated slashes are
  left out, and a slash at the end is kept.  The field holds 100 bytes.  A longer name is
  put in front of the member as a record of its own, and the field holds as much of it as
  makes whole characters.
-/
import ArtifactCourier.Failure

namespace ArtifactCourier.Tar

def maxName : Nat := 100

/-- A refused name, and what was put into the field before it was refused. -/
structure NameRefusal where
  reason : MemberNameError
  stored : List UInt8
deriving DecidableEq, Repr

/-- The name with some bytes more, if they fit. -/
def extend (name bytes : List UInt8) : Except NameRefusal (List UInt8) :=
  if name.length + bytes.length ≤ maxName then .ok (name ++ bytes) else .error ⟨.tooLong, name⟩

/-- The name with the steps of a path more; `cutOff` says that the last step may be the
beginning of a longer one, and so may look like a step upward. -/
def storeSteps (cutOff : Bool) (name : List UInt8) :
    List Path.Component → Except NameRefusal (List UInt8)
  | [] => .ok name
  | .root :: _ => .error ⟨.absolute, name⟩
  | .here :: rest => storeSteps cutOff name rest
  | .up :: rest =>
    if cutOff && rest.isEmpty then do
      let name ← if name.isEmpty then .ok name else extend name [Path.slash]
      extend name [Path.dot, Path.dot]
    else .error ⟨.parentStep, name⟩
  | .entry step :: rest => do
    let name ← if name.isEmpty then .ok name else extend name [Path.slash]
    let name ← extend name step.bytes
    storeSteps cutOff name rest

def store (cutOff : Bool) (p : Path) : Except NameRefusal (List UInt8) := do
  let steps := p.components
  let name ← if steps = [.here] then extend [] [Path.dot] else storeSteps cutOff [] steps
  if name.isEmpty then .error ⟨.empty, name⟩
  else if p.endsWithSlash then extend name [Path.slash]
  else .ok name

/-- The name of a member: what stands in the field, and in full if that is not all of it. -/
structure MemberName where
  field : List UInt8
  full : Option (List UInt8)
deriving DecidableEq, Repr

/-- **The name that a path gives to a member.**  A refusal comes with the full name if that
was to be put in front of the member. -/
def MemberName.ofPath (p : Path) : Except (NameRefusal × Option (List UInt8)) MemberName :=
  match store false p with
  | .ok name => .ok ⟨name, none⟩
  | .error refusal =>
    if p.bytes.length < maxName then .error (refusal, none)
    else
      match store true ⟨⟨RawText.wholeChars (p.bytes.take maxName)⟩⟩ with
      | .ok field => .ok ⟨field, some p.bytes⟩
      | .error refusal => .error (refusal, some p.bytes)

end ArtifactCourier.Tar
