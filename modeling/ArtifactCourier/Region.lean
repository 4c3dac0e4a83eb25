/-
  ArtifactCourier.Region
  ──────────────────────────────────────
  **The regions in which a bucket can be.**

  A region is named in lower case with dashes.  It is also recognised in upper case, and
  without its dashes: all of them or none.
-/

namespace ArtifactCourier

/-- A region. -/
inductive Region where
  | apEast1
  | apNortheast1
  | apNortheast2
  | apNortheast3
  | apSouth1
  | apSoutheast1
  | apSoutheast2
  | apSoutheast3
  | caCentral1
  | euCentral1
  | euWest1
  | euWest2
  | euWest3
  | euNorth1
  | euSouth1
  | meSouth1
  | saEast1
  | usEast1
  | usEast2
  | usWest1
  | usWest2
  | usGovEast1
  | usGovWest1
  | cnNorth1
  | cnNorthwest1
  | afSouth1
deriving DecidableEq, Repr

namespace Region

def all : List Region :=
  [apEast1, apNortheast1, apNortheast2, apNortheast3, apSouth1, apSoutheast1, apSoutheast2,
   apSoutheast3, caCentral1, euCentral1, euWest1, euWest2, euWest3, euNorth1, euSouth1, meSouth1,
   saEast1, usEast1, usEast2, usWest1, usWest2, usGovEast1, usGovWest1, cnNorth1, cnNorthwest1,
   afSouth1]

def name : Region → String
  | apEast1 => "ap-east-1"
  | apNortheast1 => "ap-northeast-1"
  | apNortheast2 => "ap-northeast-2"
  | apNortheast3 => "ap-northeast-3"
  | apSouth1 => "ap-south-1"
  | apSoutheast1 => "ap-southeast-1"
  | apSoutheast2 => "ap-southeast-2"
  | apSoutheast3 => "ap-southeast-3"
  | caCentral1 => "ca-central-1"
  | euCentral1 => "eu-central-1"
  | euWest1 => "eu-west-1"
  | euWest2 => "eu-west-2"
  | euWest3 => "eu-west-3"
  | euNorth1 => "eu-north-1"
  | euSouth1 => "eu-south-1"
  | meSouth1 => "me-south-1"
  | saEast1 => "sa-east-1"
  | usEast1 => "us-east-1"
  | usEast2 => "us-east-2"
  | usWest1 => "us-west-1"
  | usWest2 => "us-west-2"
  | usGovEast1 => "us-gov-east-1"
  | usGovWest1 => "us-gov-west-1"
  | cnNorth1 => "cn-north-1"
  | cnNorthwest1 => "cn-northwest-1"
  | afSouth1 => "af-south-1"

/-- The region when nothing better is known. -/
def fallback : Region := usEast1

/-- The spellings of a region in lower case. -/
def spellings (r : Region) : List (List Char) :=
  [r.name.toList, r.name.toList.filter (· ≠ '-')]

/-- The region of a name.  Names of regions are ASCII, so it is enough to put ASCII letters
into lower case: no other letter becomes one that occurs in them. -/
def ofName? (name : String) : Option Region :=
  let lower := name.toList.map Char.toLower
  all.find? fun r => r.spellings.contains lower

theorem mem_all (r : Region) : r ∈ all := by cases r <;> decide

/-- A region is found under its own name. -/
theorem ofName?_name (r : Region) : ofName? r.name = some r := by cases r <;> decide +kernel

end Region
end ArtifactCourier
