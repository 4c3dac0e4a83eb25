/-
  ArtifactCourier.Program
  ──────────────────────────────────────
  **The whole program: from the words of the command line to what is shown.**

  A command line that is refused ends with code 2 and one line; help and success end with
  code 0; a failure ends with code 1 and a report of it and its causes.
-/
import ArtifactCourier.CommandLine.Parser
import ArtifactCourier.Config.Load
import ArtifactCourier.Region.Selection
import ArtifactCourier.Store.Service
import ArtifactCourier.Walk

namespace ArtifactCourier

/-! ## §1. What is shown. -/

/-- What a program leaves behind for the one who started it. -/
structure Outcome where
  exitCode : Nat
  output : String
  errors : String
deriving DecidableEq, Repr

/-- A line of the log as it is shown. -/
def Log.Line.shown (line : Log.Line) : String :=
  "[" ++ line.level.label ++ "] " ++ line.text ++ "\n"

/-- A text with something in front of each line but the first. -/
def indentFollowing (margin text : String) : String :=
  String.ofList (text.toList.flatMap fun c => if c = '\n' then c :: margin.toList else [c])

/-- A number at the right of a column of five. -/
def columnOfFive (n : Nat) : String :=
  let digits := toString n
  String.ofList (List.replicate (5 - digits.length) ' ') ++ digits

/-- The causes of a failure, indented; they are numbered if there are several. -/
def causeLines (causes : List String) : List String :=
  match causes with
  | [cause] => ["    " ++ indentFollowing "    " cause]
  | _ => causes.zipIdx.map fun (cause, n) =>
    columnOfFive n ++ ": " ++ indentFollowing "       " cause

/-- **The report of a failure.** -/
def Failure.report (f : Failure) : String :=
  let head := "Error: " ++ f.message ++ "\n"
  match f.causeTexts with
  | [] => head
  | causes => head ++ "\nCaused by:\n" ++ String.join ((causeLines causes).map (· ++ "\n"))

/-! ## §2. What is done. -/

namespace Program

variable {σ : Type}

def initConfig (path : Path) : Work σ Unit := do
  Work.log (.creatingConfig path)
  Config.default.saveYamlFile path

/-- Publishes what the configuration of the run says, to the service of its region. -/
def publish (env : Environment) (connect : Region → Store.Service σ)
    (options : CommandLine.Options) : Work σ Unit := do
  let config ← Config.load options
  Work.log (.uploadingFrom config.dirs.length config.bucket)
  let region ← Region.ofConfig env config
  discard (Walk.run config ((connect region).toObjectStore config.bucket))
  Work.log .uploadCompleted

def carryOut (env : Environment) (connect : Region → Store.Service σ)
    (options : CommandLine.Options) : Work σ Unit :=
  match options.command with
  | some (.initConfig path) => initConfig path
  | none => publish env connect options

/-- What a command line that is not carried out ends with. -/
def refuse (refusal : CommandLine.Refusal) : Outcome :=
  match refusal with
  | .help page => ⟨0, CommandLine.Help.text page, ""⟩
  | refusal => ⟨2, "", refusal.message ++ "\n"⟩

/-- **Runs the program** on the words of a command line. -/
def run (env : Environment) (connect : Region → Store.Service σ) (words : List RawText)
    (s : Session σ) : Outcome × Session σ :=
  match CommandLine.parse words with
  | .error refusal => (refuse refusal, s)
  | .ok options =>
    let (result, s) := (carryOut env connect options).perform s
    let output := String.join (s.lines.map Log.Line.shown)
    match result with
    | .ok () => (⟨0, output, ""⟩, s)
    | .error f => (⟨1, output, f.report⟩, s)

end Program
end ArtifactCourier
