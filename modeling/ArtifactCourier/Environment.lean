/-
  ArtifactCourier.Environment
  ──────────────────────────────────────
  **The variables that a program is started with.**
-/
import ArtifactCourier.Path

namespace ArtifactCourier

/-- The variables of the surroundings, by name. -/
structure Environment where
  settings : List (String × String)

namespace Environment

def get? (e : Environment) (name : String) : Option String :=
  (e.settings.find? (·.1 == name)).map (·.2)

def nonempty? (e : Environment) (name : String) : Option String :=
  (e.get? name).filter (· ≠ "")

/-- The user's own directory. -/
def home? (e : Environment) : Option Path := (e.nonempty? "HOME").map Path.ofString

end Environment
end ArtifactCourier
