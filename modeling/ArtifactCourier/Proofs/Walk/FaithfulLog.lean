/-
  ArtifactCourier.Proofs.Walk.FaithfulLog
  ──────────────────────────────────────
  **The log is a faithful record of the uploads.**

  A walk takes up its directories and, in each of them, what it finds at the entries.  Each of
  these passages has a script, and a walk plays the scripts of its passages in turn, until one
  of them is broken off by a failure.  Whatever the store does, the log can therefore be read
  back: it tells every attempt before it is made, every acceptance at once, and nothing else.

    • `tells_upload`, `tells_publish` — what one file tells,
    • `turns_run` — what a whole walk tells,
    • `Bracketed.names` — the lines of uploads and the attempts match,
    • `faithful_of_plays` — the other lines of a passage, and what stands around them,
    • `run_log_faithful` — the law.
-/
import ArtifactCourier.Proofs.Walk.Script

namespace ArtifactCourier.Walk

open Store Compression

variable {σ : Type}

/-! ## §1. Passages. -/

/-- A regular file that is to be published. -/
structure Candidate where
  file : Path
  name : String
  kind : Classification

/-- Something that a walk takes up. -/
inductive Passage where
  /-- A directory is opened. -/
  | directory (dir : Path)
  /-- The name of an entry is no text, or it is no candidate. -/
  | passedOver
  /-- It cannot be told what an entry leads to. -/
  | unreadable (file : Path)
  /-- An entry leads to something that is no regular file. -/
  | skipped (file : Path)
  /-- The listing of a directory ends with an error. -/
  | brokenOff (dir : Path)
  | candidate (c : Candidate)

/-- What is found at an entry of a directory. -/
def found (config : Config) (dir : Path) (entry : RawText) (disk : FileSystem) : Passage :=
  match entry.toString? with
  | none => .passedOver
  | some name =>
    let kind := Classification.ofName config name
    if kind.isCandidate then
      match disk.stat (dir.join entry) with
      | .error _ => .unreadable (dir.join entry)
      | .ok node =>
        if node.isFile then .candidate ⟨dir.join entry, name, kind⟩ else .skipped (dir.join entry)
    else .passedOver

/-- What is found where a listing gives an entry or ends with an error. -/
def foundNext (config : Config) (dir : Path) (item : Except FileError RawText)
    (disk : FileSystem) : Passage :=
  match item with
  | .ok entry => found config dir entry disk
  | .error _ => .brokenOff dir

/-- The passages of one directory. -/
def passagesOf (config : Config) (store : ObjectStore σ) (dir : Path) (s : Session σ) :
    List Passage :=
  .directory dir ::
    match (opening dir).perform s with
    | (.ok l, s') =>
      (rounds (takeEntry config store dir) l.items s').map fun round =>
        foundNext config dir round.1 round.2.disk
    | (.error _, _) => []

/-- **What a walk takes up**, in order. -/
def passages (config : Config) (store : ObjectStore σ) (s : Session σ) : List Passage :=
  (rounds (processDirectory config store) config.dirs (s.withReport .zero)).flatMap fun round =>
    passagesOf config store round.1 round.2

/-- A failure with which an action on some disk ends. -/
def FailsOn {α : Type} (action : Disk α) (f : Failure) : Prop :=
  ∃ disk, (action.perform disk).1 = .error f

/-- The failures of a compression. -/
def GzipFails (file : Path) (f : Failure) : Prop := ∃ copy, FailsOn (gzipFile file copy) f

def TarGzFails (file : Path) (f : Failure) : Prop := ∃ copy, FailsOn (tarGzFile file copy) f

/-- No scratch directory can be made. -/
def ScratchFails (config : Config) (f : Failure) : Prop :=
  f.problem = .scratchDirectory config.workDir

/-- A scratch directory cannot be taken away. -/
def RemovalFails (f : Failure) : Prop := ∃ dir, f.problem = .removeScratch dir

/-- What is told of an archive, and of the end of the scratch directory. -/
def tarGzScript (file : Path) (name : String) : List Beat :=
  [.say (.compressingTarGz file), .work (TarGzFails file), .upload (tarGzName name),
    .work RemovalFails]

/-- What is told of a file and its compressed forms. -/
def tarScript (config : Config) (file : Path) (name : String) : List Beat :=
  [.upload name, .work (ScratchFails config),
    .say (.compressingGzip file), .work (GzipFails file), .upload (gzipName name)] ++
    tarGzScript file name

def Candidate.warning (c : Candidate) : List Beat :=
  if c.kind.tar && c.kind.plain then [.say (.matchesBoth c.name)] else []

def Candidate.script (config : Config) (c : Candidate) : List Beat :=
  c.warning ++ ((if c.kind.tar then tarScript config c.file c.name else []) ++
    if c.kind.plain then [.upload c.name] else [])

/-- **The script of a passage.** -/
def Passage.script (config : Config) : Passage → List Beat
  | directory dir => [.say (.scanning dir), .work fun f => f.problem = .readDirectory dir]
  | passedOver => []
  | unreadable file => [.work fun f => f.problem = .metadata file]
  | brokenOff dir => [.work fun f => f.problem = .readEntry dir]
  | skipped file => [.say (.notRegular file)]
  | candidate c => c.script config

/-! ## §2. One file. -/

section file

variable {store : ObjectStore σ} (leaves : store.LeavesLog) (config : Config)

include leaves in
/-- An attempt is one chapter. -/
theorem told_store (file : Path) (key : String) (s : Session σ) :
    Told (store.upload file key) (store.noting.upload file key) s
      [.attempt ⟨file, key, store.recorded file key s,
        ((store.upload file key).perform s).1⟩] := by
  obtain ⟨events, allowed⟩ := leaves file key s
  refine ⟨?_, fun notes => rfl, ?_⟩
  · rw [events]
    simp [Chapter.events]
  · intro a ha
    cases List.mem_singleton.mp ha
    exact allowed

include leaves in
/-- **One upload.** -/
theorem tells_upload (file : Path) (name : String) (s : Session σ) :
    TellsAt config (upload config store file name) (upload config store.noting file name)
      [.upload name] s := by
  unfold upload
  generalize hkey : destinationKey config.uploadDir name = key
  let begun : Session σ :=
    { s with events := s.events.push (.log (.startingUpload name config.bucket key)) }
  have logged : (Work.log (.startingUpload name config.bucket key)).perform s = (.ok (), begun) := rfl
  have attempt := told_store leaves file key begun
  cases hupload : (store.upload file key).perform begun with
  | mk result after =>
    rw [hupload] at attempt
    cases result with
    | error f =>
      refine ⟨_, (Told.log _).bind_ok logged (attempt.bind_error hupload), ?_⟩
      rw [Work.perform_bind, logged]
      dsimp only
      rw [Work.perform_bind, hupload]
      subst hkey
      exact .refused rfl rfl
    | ok _ =>
      have ending : Told (σ := σ)
          (do Work.log (.doneUploading name); Work.count Report.addUpload)
          (do Work.log (.doneUploading name); Work.count Report.addUpload) after
          [.line (.doneUploading name)] := (Told.log _).bind_ok rfl (.count _)
      refine ⟨_, (Told.log _).bind_ok logged (attempt.bind_ok hupload ending), ?_⟩
      rw [Work.perform_bind, logged]
      dsimp only
      rw [Work.perform_bind, hupload]
      subst hkey
      exact .accepted rfl rfl .nil

include leaves in
theorem tells_publishGzip (file : Path) (name : String) (scratch : Path) (s : Session σ) :
    TellsAt config (publishGzip config store file name scratch)
      (publishGzip config store.noting file name scratch)
      [.say (.compressingGzip file), .work (GzipFails file), .upload (gzipName name)] s := by
  unfold publishGzip
  refine TellsAt.bind (.log _) fun _ s₁ _ => ?_
  refine TellsAt.bind (b := [.work _]) ?_ fun _ s₂ _ => tells_upload leaves config _ _ s₂
  exact TellsAt.bind (.onDisk fun disk f h => ⟨_, disk, h⟩) fun _ _ _ => .pure _

include leaves in
theorem tells_publishTarGz (file : Path) (name : String) (scratch : Path) (s : Session σ) :
    TellsAt config (publishTarGz config store file name scratch)
      (publishTarGz config store.noting file name scratch)
      [.say (.compressingTarGz file), .work (TarGzFails file), .upload (tarGzName name)] s := by
  unfold publishTarGz
  refine TellsAt.bind (.log _) fun _ s₁ _ => ?_
  exact TellsAt.bind (.onDisk fun disk f h => ⟨_, disk, h⟩) fun _ s₂ _ =>
    tells_upload leaves config _ _ s₂

theorem tells_create (s : Session σ) :
    TellsAt config (Scratch.create config) (Scratch.create config)
      [.work (ScratchFails config)] s := by
  unfold Scratch.create
  refine TellsAt.get_bind (fun _ => rfl) ?_
  refine TellsAt.bind (.onDisk fun disk f h => ?_) fun _ _ _ => .pure _
  rw [Disk.perform_bind, Disk.perform_get] at h
  dsimp only at h
  split at h <;> cases h
  rfl

theorem tells_close (dir : Path) (s : Session σ) :
    TellsAt (σ := σ) config (Scratch.close dir) (Scratch.close dir)
      [.work RemovalFails] s := by
  unfold Scratch.close
  refine TellsAt.onDisk fun disk f h => ?_
  rw [Disk.perform_bind, Disk.perform_get] at h
  dsimp only at h
  split at h <;> cases h
  exact ⟨dir, rfl⟩

include leaves in
/-- **A tar candidate.** -/
theorem tells_publishTar (file : Path) (name : String) (s : Session σ) :
    TellsAt config (publishTar config store file name) (publishTar config store.noting file name)
      (tarScript config file name) s := by
  unfold publishTar Scratch.use
  refine TellsAt.bind (b := []) (.count _) fun _ s₁ _ => ?_
  refine TellsAt.bind (tells_upload leaves config file name s₁) fun _ s₂ _ => ?_
  refine TellsAt.bind (tells_create config s₂) fun dir s₃ _ => ?_
  refine TellsAt.bind (b := [_, _, _, _, _, _]) ?_ fun _ s₄ _ => tells_close config dir s₄
  refine TellsAt.orElseCleanUp ?_ (cleansUp_discard dir) (cleansUp_discard dir)
  exact TellsAt.bind (tells_publishGzip leaves config file name dir s₃) fun _ s₄ _ =>
    tells_publishTarGz leaves config file name dir s₄

include leaves in
theorem tells_publishPlain (file : Path) (name : String) (s : Session σ) :
    TellsAt config (publishPlain config store file name)
      (publishPlain config store.noting file name) [.upload name] s := by
  unfold publishPlain
  exact TellsAt.bind (.count _) fun _ s₁ _ => tells_upload leaves config file name s₁

theorem tells_onlyIf (asked : Bool) {w : Work σ Unit} {v : Work (σ × List Attempt) Unit}
    {beats : List Beat} {s : Session σ} (h : TellsAt config w v beats s) :
    TellsAt config (onlyIf asked w) (onlyIf asked v) (if asked then beats else []) s := by
  cases asked
  · exact .pure ()
  · exact h

include leaves in
/-- **A candidate.** -/
theorem tells_publish (c : Candidate) (s : Session σ) :
    TellsAt config (publish config store c.file c.name c.kind)
      (publish config store.noting c.file c.name c.kind) (c.script config) s := by
  rw [publish_eq, publish_eq]
  refine TellsAt.bind (tells_onlyIf config _ (.log _)) fun _ s₁ _ => ?_
  refine TellsAt.bind (tells_onlyIf config _ (tells_publishTar leaves config _ _ s₁))
    fun _ s₂ _ => ?_
  exact tells_onlyIf config _ (tells_publishPlain leaves config _ _ s₂)

/-! ## §3. The walk. -/

theorem perform_lookAt (file : Path) (s : Session σ) :
    (lookAt file).perform s =
      (match s.disk.stat file with
        | .ok node => .ok node
        | .error e => .error ((Failure.ofFile e).within (.metadata file)), s) := by
  unfold lookAt
  rw [Work.perform_onDisk, Disk.perform_look]
  cases s.disk.stat file <;> rfl

include leaves in
/-- **One entry.** -/
theorem tells_visit (dir : Path) (entry : RawText) (s : Session σ) :
    TellsAt config (visit config store dir entry) (visit config store.noting dir entry)
      ((found config dir entry s.disk).script config) s := by
  unfold visit found
  refine TellsAt.bind (b := []) (.count _) fun _ s₁ hcount => ?_
  cases hcount
  cases entry.toString? with
  | none => exact .pure ()
  | some name =>
    dsimp only
    split
    · have known := perform_lookAt (dir.join entry)
        { s with report := s.report.addEntry }
      dsimp only at known
      cases hstat : s.disk.stat (dir.join entry) with
      | error e =>
        have refused : TellsAt (σ := σ) config (lookAt (dir.join entry)) (lookAt (dir.join entry))
            [.work fun f => f.problem = .metadata (dir.join entry)]
            { s with report := s.report.addEntry } := by
          refine .onDisk fun disk f h => ?_
          rw [Disk.perform_look] at h
          dsimp only at h
          split at h <;> cases h
          rfl
        refine TellsAt.bind (c := []) refused fun node s₂ hlook => ?_
        rw [hlook, hstat] at known
        cases known
      | ok node =>
        rw [hstat] at known
        refine TellsAt.known_bind (.of_silent ?_ fun notes => ?_) known ?_
        · rw [known]
        · rw [perform_lookAt, perform_lookAt]
          rfl
        · dsimp only
          split
          · exact tells_publish leaves config ⟨dir.join entry, name, _⟩ _
          · exact .log _
    · exact .pure ()

include leaves in
/-- **An entry, or the error behind the last one.** -/
theorem tells_takeEntry (dir : Path) (item : Except FileError RawText) (s : Session σ) :
    TellsAt config (takeEntry config store dir item) (takeEntry config store.noting dir item)
      ((foundNext config dir item s.disk).script config) s := by
  rcases item with e | entry
  · have broken : TellsAt (σ := σ) config
        (Work.onDisk (Disk.look (.readEntry dir) fun _ => .error e) : Work σ RawText)
        (Work.onDisk (Disk.look (.readEntry dir) fun _ => .error e))
        [.work fun f => f.problem = .readEntry dir] s := by
      refine .onDisk fun disk f h => ?_
      cases h
      rfl
    exact TellsAt.bind (c := []) broken fun entry s' hread => by cases hread
  · exact tells_visit leaves config dir entry s

/-- **What is done before the first entry.** -/
theorem tells_opening (dir : Path) (s : Session σ) :
    TellsAt config (opening dir) (opening dir) ((Passage.directory dir).script config) s := by
  unfold opening list
  refine TellsAt.bind (.log _) fun _ s₁ _ => ?_
  refine TellsAt.bind (.count _) fun _ s₂ _ => ?_
  refine .onDisk fun disk f h => ?_
  rw [Disk.perform_look] at h
  dsimp only at h
  split at h <;> cases h
  rfl

include leaves in
/-- **A directory.** -/
theorem turns_processDirectory (dir : Path) (s : Session σ) :
    TurnsAt config (processDirectory config store dir) (processDirectory config store.noting dir)
      ((passagesOf config store dir s).map (Passage.script config)) s := by
  rw [processDirectory_eq, processDirectory_eq]
  unfold passagesOf
  have opened := TurnsAt.single (tells_opening config dir s)
  cases hopen : (opening dir).perform s with
  | mk result s' =>
    cases result with
    | error e => exact opened.bind_error hopen
    | ok l =>
      rw [List.map_cons, List.map_map, List.map_eq_flatMap]
      exact opened.bind_ok hopen <|
        .forM (fun item t => .single (tells_takeEntry leaves config dir item t)) l.items s'

include leaves in
/-- **All that a walk tells** is in the scripts of its passages. -/
theorem turns_run (s : Session σ) :
    TurnsAt config (run config store) (run config store.noting)
      ((passages config store s).map (Passage.script config)) s := by
  unfold run passages
  rw [List.map_flatMap]
  refine TurnsAt.silent_bind (.count _) rfl ?_
  refine (TurnsAt.forM (turns_processDirectory leaves config) config.dirs
    (s.withReport .zero)).bind_silent fun _ s' => ⟨.of_silent rfl fun _ => rfl, rfl⟩

end file

/-! ## §4. What can be read back. -/

/-- The names in the lines before uploads. -/
def startedNames (chapters : List Chapter) : List String :=
  (chapters.filterMap Chapter.line?).filterMap fun line =>
    match line with
    | .startingUpload name _ _ => some name
    | _ => none

/-- The names in the lines behind uploads. -/
def doneNames (chapters : List Chapter) : List String :=
  (chapters.filterMap Chapter.line?).filterMap fun line =>
    match line with
    | .doneUploading name => some name
    | _ => none

/-- **The lines of uploads and the attempts match**, one to one and in order. -/
structure Matched (config : Config) (chapters : List Chapter) (r : Option Failure) : Prop where
  started : (startedNames chapters).map (destinationKey config.uploadDir)
    = (chapters.filterMap Chapter.attempt?).map Attempt.key
  done : (doneNames chapters).map (destinationKey config.uploadDir)
    = ((chapters.filterMap Chapter.attempt?).filter Attempt.accepted).map Attempt.key
  /-- At most the last line before an upload is without one behind it. -/
  unmatched : startedNames chapters = doneNames chapters ∨
    ∃ name f, startedNames chapters = doneNames chapters ++ [name] ∧ r = some f

theorem Bracketed.matched {config : Config} {chapters : List Chapter} {r : Option Failure}
    (h : Bracketed config chapters r) : Matched config chapters r := by
  induction h with
  | nil => exact ⟨rfl, rfl, .inl rfl⟩
  | @other line chapters r other _ ih =>
    obtain ⟨started, done, unmatched⟩ := ih
    have sameStarted : startedNames (.line line :: chapters) = startedNames chapters := by
      cases line <;> first | rfl | cases other
    have sameDone : doneNames (.line line :: chapters) = doneNames chapters := by
      cases line <;> first | rfl | cases other
    constructor
    · rwa [sameStarted]
    · rwa [sameDone]
    · rwa [sameStarted, sameDone]
  | @accepted name chapters r a key outcome _ ih =>
    obtain ⟨started, done, unmatched⟩ := ih
    have noted : (Chapter.line (startLine config name) :: .attempt a ::
        .line (.doneUploading name) :: chapters).filterMap Chapter.attempt?
          = a :: chapters.filterMap Chapter.attempt? := rfl
    have taken : a.accepted = true := by rw [Attempt.accepted, outcome]; rfl
    constructor
    · rw [noted, List.map_cons, key, ← started]
      rfl
    · rw [noted, List.filter_cons_of_pos taken, List.map_cons, key, ← done]
      rfl
    · obtain same | ⟨last, f, more, failed⟩ := unmatched
      · exact .inl (congrArg (name :: ·) same)
      · exact .inr ⟨last, f, congrArg (name :: ·) more, failed⟩
  | @refused name a f key outcome =>
    have refused : a.accepted = false := by rw [Attempt.accepted, outcome]; rfl
    have noted : [Chapter.line (startLine config name), .attempt a].filterMap Chapter.attempt?
        = [a] := rfl
    constructor
    · rw [noted, List.map_singleton, key]
      rfl
    · rw [noted, List.filter_cons_of_neg (by simp [refused])]
      rfl
    · exact .inr ⟨name, f, rfl, rfl⟩

/-- The lines of a passage that tell of something else than uploads. -/
def Passage.lines : Passage → List Log.Line
  | directory dir => [.scanning dir]
  | passedOver => []
  | unreadable _ => []
  | brokenOff _ => []
  | skipped file => [.notRegular file]
  | candidate c =>
    (if c.kind.tar && c.kind.plain then [.matchesBoth c.name] else []) ++
      if c.kind.tar then [.compressingGzip c.file, .compressingTarGz c.file] else []

/-- **What stands around the lines of a candidate.**  The warning comes first.  A compression is
told directly after the upload of the form before it, and is followed by the upload of its own
form, unless it fails. -/
structure Framed (config : Config) (c : Candidate) (story : List Chapter) (r : Option Failure) :
    Prop where
  warning : c.kind.tar = true → c.kind.plain = true →
    story.head? = some (.line (.matchesBoth c.name))
  gzip : ∀ before after, story = before ++ .line (.compressingGzip c.file) :: after →
    before.getLast? = some (.line (.doneUploading c.name)) ∧
      (after.head? = some (.line (startLine config (gzipName c.name))) ∨
        after = [] ∧ ∃ f, r = some f ∧ GzipFails c.file f)
  tarGz : ∀ before after, story = before ++ .line (.compressingTarGz c.file) :: after →
    before.getLast? = some (.line (.doneUploading (gzipName c.name))) ∧
      (after.head? = some (.line (startLine config (tarGzName c.name))) ∨
        after = [] ∧ ∃ f, r = some f ∧ TarGzFails c.file f)

section plays

variable {config : Config} {chapters : List Chapter} {r : Option Failure}

theorem said_script (config : Config) (p : Passage) : (p.script config).filterMap Beat.said? = p.lines := by
  cases p with
  | candidate c =>
    rcases c with ⟨file, name, _ | _, _ | _⟩ <;> rfl
  | _ => rfl

theorem proper_script (p : Passage) : Proper (p.script config) := by
  intro line hline
  rw [said_script] at hline
  cases p with
  | candidate c =>
    rcases c with ⟨file, name, _ | _, _ | _⟩ <;>
      simp only [Passage.lines, Bool.and_self, Bool.and_false, Bool.false_and, if_true, if_false,
        List.append_nil, List.nil_append, List.not_mem_nil, List.cons_append, List.mem_cons,
        or_false, Bool.false_eq_true] at hline
    · rcases hline with rfl | rfl <;> rfl
    · rcases hline with rfl | rfl | rfl <;> rfl
  | directory dir => cases List.mem_singleton.mp hline; rfl
  | skipped file => cases List.mem_singleton.mp hline; rfl
  | passedOver => cases hline
  | unreadable file => cases hline
  | brokenOff dir => cases hline

/-- Behind an upload stands the line that says that it is done. -/
theorem getLast?_of_upload {beats : List Beat} {name : String}
    (h : Plays config (beats ++ [.upload name]) chapters none) :
    chapters.getLast? = some (.line (.doneUploading name)) := by
  obtain ⟨first, rest, rfl, -, hrest⟩ := h.of_append
  cases hrest with
  | accepted _ _ h =>
    cases h
    rw [List.getLast?_append]
    rfl

/-- Work that did not fail is not told. -/
theorem plays_of_work {beats : List Beat} {cause : Failure → Prop}
    (h : Plays config (beats ++ [.work cause]) chapters none) : Plays config beats chapters none := by
  obtain ⟨first, rest, rfl, hfirst, hrest⟩ := h.of_append
  cases hrest with
  | worked h =>
    cases h
    rwa [List.append_nil]

/-- **Work before an upload**: the upload follows directly, or the work has failed. -/
theorem head?_of_upload {beats : List Beat} {name : String} {cause : Failure → Prop}
    (h : Plays config (.work cause :: .upload name :: beats) chapters r) :
    chapters.head? = some (.line (startLine config name)) ∨
      chapters = [] ∧ ∃ f, r = some f ∧ cause f := by
  cases h with
  | failed cause => exact .inr ⟨rfl, _, rfl, cause⟩
  | worked h =>
    cases h with
    | accepted => exact .inl rfl
    | refused => exact .inl rfl

/-- A line that a script says once stands there where the script says it. -/
theorem plays_around {line : Log.Line} {beats first rest : List Beat}
    {before after : List Chapter} (other : isOfUpload line = false)
    (script : beats = first ++ .say line :: rest) (hfirst : .say line ∉ first)
    (hrest : .say line ∉ rest) (h : Plays config beats (before ++ .line line :: after) r) :
    Plays config first before none ∧ Plays config rest after r := by
  obtain ⟨first', rest', script', hbefore, hafter⟩ := h.split other
  obtain ⟨rfl, -, rfl⟩ := (List.append_cons_inj_of_notMem hfirst hrest).mp (script ▸ script')
  exact ⟨hbefore, hafter⟩

theorem framed_of_plays {c : Candidate} (h : Plays config (c.script config) chapters r) :
    Framed config c chapters r := by
  obtain ⟨file, name, tar, plain⟩ := c
  -- A line of a compression is told of a tar candidate only.
  have isTar (line : Log.Line) (other : isOfUpload line = false) {before after : List Chapter}
      (hstory : chapters = before ++ .line line :: after) : tar = true := by
    rw [hstory] at h
    obtain ⟨first, rest, script, -, -⟩ := h.split other
    have said : line ∈ (Passage.candidate ⟨file, name, tar, plain⟩).lines := by
      rw [← said_script config]
      refine List.mem_filterMap.mpr ⟨.say line, ?_, rfl⟩
      show Beat.say line ∈ Candidate.script config _
      rw [script]
      exact List.mem_append_right _ List.mem_cons_self
    cases tar with
    | true => rfl
    | false => cases said
  constructor
  · rintro rfl rfl
    cases h with
    | say h => rfl
  · intro before after hstory
    obtain rfl := isTar (.compressingGzip file) rfl hstory
    rw [hstory] at h
    have script : Candidate.script config ⟨file, name, true, plain⟩
        = (Candidate.warning ⟨file, name, true, plain⟩ ++ [.upload name] ++
            [.work (ScratchFails config)]) ++ .say (.compressingGzip file) ::
          .work (GzipFails file) :: .upload (gzipName name) ::
            (tarGzScript file name ++ if plain then [.upload name] else []) := by
      simp [Candidate.script, tarScript]
    obtain ⟨hbefore, hafter⟩ := plays_around rfl script (by cases plain <;> simp [Candidate.warning])
      (by cases plain <;> simp [tarGzScript]) h
    exact ⟨getLast?_of_upload (plays_of_work hbefore), head?_of_upload hafter⟩
  · intro before after hstory
    obtain rfl := isTar (.compressingTarGz file) rfl hstory
    rw [hstory] at h
    have script : Candidate.script config ⟨file, name, true, plain⟩
        = (Candidate.warning ⟨file, name, true, plain⟩ ++
            [.upload name, .work (ScratchFails config), .say (.compressingGzip file),
              .work (GzipFails file)] ++ [.upload (gzipName name)]) ++
          .say (.compressingTarGz file) :: .work (TarGzFails file) :: .upload (tarGzName name) ::
            ([.work RemovalFails] ++ if plain then [.upload name] else []) := by
      simp [Candidate.script, tarScript, tarGzScript]
    obtain ⟨hbefore, hafter⟩ := plays_around rfl script (by cases plain <;> simp [Candidate.warning])
      (by cases plain <;> simp) h
    exact ⟨getLast?_of_upload hbefore, head?_of_upload hafter⟩

/-- **What is told of a passage**: its lines in order, as far as it was taken, and around those
of a candidate what belongs there. -/
structure Faithful (config : Config) (p : Passage) (story : List Chapter) (r : Option Failure) :
    Prop where
  lines : otherLines story <+: p.lines
  complete : r = none → otherLines story = p.lines
  framed : ∀ c, p = .candidate c → Framed config c story r

theorem faithful_of_plays {p : Passage} (h : Plays config (p.script config) chapters r) :
    Faithful config p chapters r := by
  obtain ⟨front, all⟩ := h.otherLines (proper_script p)
  rw [said_script] at front all
  refine ⟨front, all, ?_⟩
  rintro c rfl
  exact framed_of_plays h

end plays

/-! ## §5. The law. -/

/-- **The log is a faithful record of the uploads.**  Whatever the store does, a walk tells one
story for each of its passages, in order, and only the last one can be broken off.  Every attempt
to upload stands between the two lines that belong to it; the second one is missing if and only
if the attempt was refused, and then nothing comes after it.  Of other things a story tells what
belongs to its passage: the warning once and first for a candidate that both lists match, and for
no other; the compressions in their places. -/
theorem run_log_faithful {store : ObjectStore σ} (leaves : store.LeavesLog) (config : Config)
    (s : Session σ) :
    ∃ stories,
      Told (run config store) (run config store.noting) s stories.flatten ∧
      InTurn config ((passages config store s).map (Passage.script config)) stories
        (failure? ((run config store).perform s).1) ∧
      Bracketed config stories.flatten (failure? ((run config store).perform s).1) ∧
      Matched config stories.flatten (failure? ((run config store).perform s).1) ∧
      (passages config store s).length = stories.length ∧
      ∀ p story, (p, story) ∈ (passages config store s).zip stories →
        ∃ r, (r = none ∨ r = failure? ((run config store).perform s).1) ∧
          Faithful config p story r := by
  obtain ⟨stories, told, turns⟩ := turns_run leaves config s
  have proper : ∀ beats ∈ (passages config store s).map (Passage.script config), Proper beats := by
    rw [List.forall_mem_map]
    exact fun p _ => proper_script p
  have bracketed := turns.bracketed proper
  obtain ⟨length, plays⟩ := turns.plays
  rw [List.length_map] at length
  refine ⟨stories, told, turns, bracketed, bracketed.matched, length, fun p story hmem => ?_⟩
  have there : (p.script config, story)
      ∈ ((passages config store s).map (Passage.script config)).zip stories := by
    rw [List.zip_map_left]
    exact List.mem_map_of_mem hmem
  obtain ⟨r, hr, hplays⟩ := plays _ _ there
  exact ⟨r, hr, faithful_of_plays hplays⟩

/-- The first tar candidate is matched by both lists here. -/
def matchedTwiceConfig : Config :=
  { sampleConfig with bucket := "b", plainPrefixes := ["a.", "b."] }

/-- The log of a walk that is refused the archive of a candidate that both lists match. -/
def matchedTwiceLines : List Log.Line :=
  [.scanning (Path.ofString "d"),
    .startingUpload "b.wasm" "b" "v1/b.wasm", .doneUploading "b.wasm",
    .matchesBoth "a.wasm",
    .startingUpload "a.wasm" "b" "v1/a.wasm", .doneUploading "a.wasm",
    .compressingGzip (Path.ofString "d/a.wasm"),
    .startingUpload "a.wasm.gz" "b" "v1/a.wasm.gz", .doneUploading "a.wasm.gz",
    .compressingTarGz (Path.ofString "d/a.wasm"),
    .startingUpload "a.wasm.tar.gz" "b" "v1/a.wasm.tar.gz"]

theorem lines_matchedTwice :
    ((run matchedTwiceConfig sampleReceiver.toObjectStore).perform (sampleSession.withStore 0)).2.lines
      = matchedTwiceLines := by
  delta run processDirectory takeEntry visit publish publishTar publishGzip publishTarGz
    Compression.gzipFile Compression.tarGzFile Compression.writeCompressed
    Compression.writeRemains
  dsimp only
  generalize Gzip.encodePieces = encode
  generalize Compression.memberPieces = pieces
  generalize Compression.refusal = refusal
  cbv

theorem length_passages_matchedTwice :
    (passages matchedTwiceConfig sampleReceiver.toObjectStore (sampleSession.withStore 0)).length
      = 4 := by
  delta passages passagesOf processDirectory takeEntry visit publish publishTar publishGzip publishTarGz
    Compression.gzipFile Compression.tarGzFile Compression.writeCompressed
    Compression.writeRemains
  dsimp only
  generalize Gzip.encodePieces = encode
  generalize Compression.memberPieces = pieces
  generalize Compression.refusal = refusal
  cbv

/-- A candidate that both lists match is refused at its archive, the third entry of the
directory. -/
theorem run_log_faithful_at_refusal :
    sampleReceiver.toObjectStore.LeavesLog ∧
    ((run matchedTwiceConfig sampleReceiver.toObjectStore).perform
        (sampleSession.withStore 0)).2.lines
      = matchedTwiceLines ∧
    ∃ stories : List (List Chapter),
      Told (run matchedTwiceConfig sampleReceiver.toObjectStore)
        (run matchedTwiceConfig sampleReceiver.toObjectStore.noting)
        (sampleSession.withStore 0) stories.flatten ∧
      stories.length = 4 ∧
      Matched matchedTwiceConfig stories.flatten (failure? ((run matchedTwiceConfig
        sampleReceiver.toObjectStore).perform (sampleSession.withStore 0)).1) := by
  have leaves : sampleReceiver.toObjectStore.LeavesLog := Receiver.leavesLog _
  obtain ⟨stories, told, -, -, matched, length, -⟩ :=
    run_log_faithful leaves matchedTwiceConfig (sampleSession.withStore 0)
  exact ⟨leaves, lines_matchedTwice, stories, told,
    length.symm.trans length_passages_matchedTwice, matched⟩

end ArtifactCourier.Walk
