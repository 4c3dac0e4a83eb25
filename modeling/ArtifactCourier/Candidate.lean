/-
  ArtifactCourier.Candidate
  ──────────────────────────────────────
  **Which files are published, and under which keys.**

  A file is a candidate when its name starts with a configured prefix.  The two prefix
  lists are independent: a tar candidate is published three times, as itself and in two
  compressed forms; a plain candidate is published once; a file may be both.
-/
import ArtifactCourier.Config

namespace ArtifactCourier

/-- The lists whose prefixes a name starts with. -/
structure Classification where
  /-- The name starts with a tar prefix. -/
  tar : Bool
  /-- The name starts with a plain prefix. -/
  plain : Bool
deriving DecidableEq, Repr

namespace Classification

/-- Whether a name starts with one of the prefixes, character by character. -/
def matchesAny (prefixes : List String) (name : String) : Bool :=
  prefixes.any fun p => p.toList.isPrefixOf name.toList

/-- The lists that `name` matches. -/
def ofName (config : Config) (name : String) : Classification where
  tar := matchesAny config.tarPrefixes name
  plain := matchesAny config.plainPrefixes name

def isCandidate (c : Classification) : Bool := c.tar || c.plain

/-- A name matches when some prefix is a prefix of it. -/
theorem matchesAny_iff {prefixes : List String} {name : String} :
    matchesAny prefixes name = true ↔ ∃ p ∈ prefixes, p.toList <+: name.toList := by
  simp [matchesAny, List.any_eq_true, List.isPrefixOf_iff_prefix]

@[simp] theorem matchesAny_nil (name : String) : matchesAny [] name = false := rfl

end Classification

/-- The key under which a file is published: the directory, one slash, the name. -/
def destinationKey (uploadDir name : String) : String := uploadDir ++ "/" ++ name

def gzipName (name : String) : String := name ++ Defaults.gzipExtension

def tarGzName (name : String) : String := name ++ Defaults.tarGzExtension

end ArtifactCourier
