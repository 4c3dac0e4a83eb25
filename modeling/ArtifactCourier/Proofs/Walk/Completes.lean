/-
  ArtifactCourier.Proofs.Walk.Completes
  ──────────────────────────────────────
  **When a walk gets through.**

  Where every directory can be listed, scratch directories can be made and everything that is
  handed over is taken, it is the entries alone that decide whether a walk gets through.  One
  that matches a prefix has to lead somewhere; if it leads to a regular file that is to be
  archived, the name of the archive must not be too long.  What is no regular file is passed
  over with one warning each.

    • `Passes`, `passedOver` — what an entry needs, and what it is warned of,
    • `succeeds_publishTar`, `succeeds_visit`, `succeeds_run` — the triples of the walk,
    • `run_completes` — the law, and `not_always_completed` — why entries need anything.
-/
import ArtifactCourier.Proofs.Walk.Published
import ArtifactCourier.Proofs.Walk.Succeeds

namespace ArtifactCourier

open Store FileSystem Compression

variable {σ : Type}

/-! ## §1. One file. -/

/-- The receiver takes everything that is handed over. -/
def Store.Receiver.TakesAll (r : Receiver σ) : Prop :=
  ∀ key file content state, (r.receive key file content state).1 = .ok ()

theorem Store.Receiver.acceptAll_takesAll : acceptAll.TakesAll := fun _ _ _ _ => rfl

/-- A name is not too long for an entry of a directory. -/
def Fits (name : String) : Prop := (RawText.ofString name).bytes.length ≤ maxNameLength

instance (name : String) : Decidable (Fits name) := inferInstanceAs (Decidable (_ ≤ _))

namespace Walk

section file

variable {r : Receiver σ} (undisturbed : r.LeavesDisk) (accepting : r.TakesAll) (config : Config)
  {suffix : List RawText → RawText} {D : FileSystem → Prop} {file : Path} {name : String}

include undisturbed accepting in
theorem succeeds_store (key : String)
    (h : ∀ disk, D disk → ∃ bytes, disk.bytesAt file = .ok bytes) :
    Succeeds suffix D (r.toObjectStore.upload file key) True [] fun _ => D := by
  intro s hs hD
  obtain ⟨bytes, hbytes⟩ := h s.disk hD
  rw [Receiver.perform_upload undisturbed, hbytes]
  dsimp only
  have taken : (r.answer ⟨key, file, bytes⟩ s.store).1 = .ok () := accepting key file bytes s.store
  rw [taken]
  refine ⟨fun _ => ⟨_, _, rfl⟩, fun a s' hrun => ?_⟩
  cases hrun
  exact ⟨trivial, hs, hD, Session.skipped_of_push (e := .handedOver key file bytes) rfl⟩

include undisturbed accepting in
/-- **An upload succeeds** if the file can be read. -/
theorem succeeds_upload (h : ∀ disk, D disk → ∃ bytes, disk.bytesAt file = .ok bytes) :
    Succeeds suffix D (upload config r.toObjectStore file name) True [] fun _ => D := by
  unfold upload
  apply (Succeeds.log _).silent_bind
  intro _
  apply (succeeds_store undisturbed accepting _ h).silent_bind
  intro _
  exact (Succeeds.log _).silent_bind fun _ => Succeeds.count _

end file

theorem fits_append_iff {ending : String} :
    Fits (name ++ ending) ↔
      (RawText.ofString name).bytes.length + (RawText.ofString ending).bytes.length
        ≤ maxNameLength := by
  rw [Fits, RawText.ofString_append, RawText.bytes_append, List.length_append]

/-- The name of an archive is seven bytes longer than the name of its file. -/
theorem fits_tarGzName_iff :
    Fits (tarGzName name) ↔ (RawText.ofString name).bytes.length ≤ maxNameLength - 7 := by
  have ending : (RawText.ofString Defaults.tarGzExtension).bytes.length = 7 := by decide
  unfold tarGzName
  rw [fits_append_iff, ending]
  exact (Nat.le_sub_iff_add_le (by decide)).symm

/-- Where the name of the archive is not too long, the name of the gzip copy is not. -/
theorem fits_gzipName (h : Fits (tarGzName name)) : Fits (gzipName name) :=
  fits_append_iff.2 (Nat.le_trans (Nat.add_le_add_left (by decide) _) (fits_append_iff.1 h))

/-- An action that is done only if it is asked for succeeds if it does. -/
theorem succeeds_onlyIf (asked : Bool) {w : Work σ Unit} {φ : Prop}
    (h : Succeeds suffix D w φ [] fun _ => D) :
    Succeeds suffix D (onlyIf asked w) (asked = true → φ) [] fun _ => D := by
  cases asked with
  | false => exact (Succeeds.pure (E := fun _ => D) ()).congr (by simp)
  | true => exact h.congr (by simp)

/-- The warning about a file that is published both ways passes over nothing. -/
theorem succeeds_warning (asked : Bool) (name : String) :
    Succeeds suffix D (onlyIf asked (Work.log (.matchesBoth name)) : Work σ Unit) True []
      fun _ => D :=
  (succeeds_onlyIf asked (Succeeds.log (.matchesBoth name))).congr (by simp)

/-- A file that is to be published in compressed forms: a regular one, whose name is text that the
operating system accepts. -/
structure Archivable (fs : FileSystem) (file : Path) (name : String) : Prop where
  regular : ∃ n, fs.stat file = .ok n ∧ n.isFile = true
  base : file.fileName? = some (RawText.ofString name)
  plain : 0 ∉ (RawText.ofString name).bytes

namespace Archivable

variable {fs : FileSystem} {file : Path} {name : String} (h : Archivable fs file name)

include h

theorem step : (RawText.ofString name).IsStep := (Path.isStep_of_fileName? h.base).1

theorem plain_append {ending : String} (hending : 0 ∉ (RawText.ofString ending).bytes) :
    0 ∉ (RawText.ofString (name ++ ending)).bytes := by
  rw [RawText.ofString_append]
  exact fun zero => (List.mem_append.1 zero).elim h.plain hending

theorem bytesAt : ∃ bytes, fs.bytesAt file = .ok bytes := by
  obtain ⟨n, hstat, regular⟩ := h.regular
  exact exists_bytesAt hstat regular

end Archivable

section regular

variable {r : Receiver σ} (undisturbed : r.LeavesDisk) (accepting : r.TakesAll) {config : Config}
  {suffix : List RawText → RawText} {fs : FileSystem} {file : Path} {id : NodeId} {name : String}
  (sound : fs.Sound) (writable : Scratch.Writable config fs suffix) (h : Archivable fs file name)

/-- There is a file of that name in the scratch directory, which can be read. -/
def HasCopy (config : Config) (fs : FileSystem) (suffix : List RawText → RawText) (id : NodeId)
    (form : String) (disk : FileSystem) : Prop :=
  fs.HasScratch (Scratch.place config fs suffix) id disk ∧
    ∃ bytes, disk.bytesAt ((Scratch.place config fs suffix).join (RawText.ofString form))
      = .ok bytes

include sound writable h

/-- **A gzip copy is made** if its name is not too long. -/
theorem succeeds_gzipFile :
    Succeeds suffix (fs.HasScratch (Scratch.place config fs suffix) id)
      (Work.onDisk (gzipFile file ((Scratch.place config fs suffix).join
        (RawText.ofString (gzipName name)))) : Work σ Nat)
      (Fits (gzipName name)) [] fun _ => HasCopy config fs suffix id (gzipName name) := by
  obtain ⟨n, hstat, regular⟩ := h.regular
  have step := h.step.gzipName
  have plain : 0 ∉ (RawText.ofString (gzipName name)).bytes := h.plain_append (by decide)
  apply Succeeds.onDisk
  intro disk made
  constructor
  · intro fits
    exact exists_gzipFile sound made step (writable.checkPath_join step plain fits) fits hstat
      regular
  · intro k disk' hrun
    obtain ⟨made', copy⟩ := gzipFile_in_scratch sound made step hstat regular hrun
    obtain ⟨_, _, _, _, _, hwrite, -⟩ := gzipFile_eq_ok.1 hrun
    obtain ⟨-, -, short⟩ := made.openWrite sound step hwrite
    exact ⟨Nat.le_of_not_lt short, made', exists_of_toOption_eq copy (isSome_gzipOf hstat regular)⟩

/-- **An archive is made** if its name is not too long. -/
theorem succeeds_tarGzFile :
    Succeeds suffix (fs.HasScratch (Scratch.place config fs suffix) id)
      (Work.onDisk (tarGzFile file ((Scratch.place config fs suffix).join
        (RawText.ofString (tarGzName name)))) : Work σ Unit)
      (Fits (tarGzName name)) [] fun _ => HasCopy config fs suffix id (tarGzName name) := by
  obtain ⟨n, hstat, regular⟩ := h.regular
  have step := h.step.tarGzName
  have plain : 0 ∉ (RawText.ofString (tarGzName name)).bytes := h.plain_append (by decide)
  apply Succeeds.onDisk
  intro disk made
  constructor
  · intro fits
    obtain ⟨disk', hrun⟩ := exists_tarGzFile sound made step
      (writable.checkPath_join step plain fits) fits hstat regular h.base rfl
    exact ⟨(), disk', hrun⟩
  · intro _ disk' hrun
    obtain ⟨made', copy⟩ := tarGzFile_in_scratch sound made step hstat regular hrun
    obtain ⟨_, _, _, _, _, hwrite, -⟩ := tarGzFile_eq_ok.1 hrun
    obtain ⟨-, -, short⟩ := made.openWrite sound step hwrite
    exact ⟨Nat.le_of_not_lt short, made',
      exists_of_toOption_eq copy (isSome_tarGzOf hstat regular h.base rfl)⟩

include undisturbed accepting

theorem succeeds_publishGzip :
    Succeeds suffix (fs.HasScratch (Scratch.place config fs suffix) id)
      (publishGzip config r.toObjectStore file name (Scratch.place config fs suffix))
      (Fits (gzipName name)) [] fun _ => fs.HasScratch (Scratch.place config fs suffix) id := by
  unfold publishGzip
  apply (Succeeds.log _).silent_bind
  intro _
  apply (succeeds_gzipFile sound writable h).discard.bind_silent
  intro _
  exact (succeeds_upload undisturbed accepting config fun disk copy => copy.2).weaken
    fun _ disk copy => copy.1

theorem succeeds_publishTarGz :
    Succeeds suffix (fs.HasScratch (Scratch.place config fs suffix) id)
      (publishTarGz config r.toObjectStore file name (Scratch.place config fs suffix))
      (Fits (tarGzName name)) [] fun _ => fs.HasScratch (Scratch.place config fs suffix) id := by
  unfold publishTarGz
  apply (Succeeds.log _).silent_bind
  intro _
  apply (succeeds_tarGzFile sound writable h).bind_silent
  intro _
  exact (succeeds_upload undisturbed accepting config fun disk copy => copy.2).weaken
    fun _ disk copy => copy.1

/-- **A file is published in three forms** if the longest of their names is not too long. -/
theorem succeeds_publishTar :
    Succeeds suffix fs.Kept (publishTar config r.toObjectStore file name) (Fits (tarGzName name)) []
      fun _ => fs.Kept := by
  unfold publishTar
  apply (Succeeds.count _).silent_bind
  intro _
  apply Succeeds.silent_bind
  · apply succeeds_upload undisturbed accepting config
    intro disk kept
    rw [bytesAt_kept sound kept]
    exact h.bytesAt
  intro _
  refine succeeds_use sound writable fun id => ?_
  refine ((succeeds_publishGzip undisturbed accepting sound writable h).bind fun _ =>
    succeeds_publishTarGz undisturbed accepting sound writable h).congr ?_
  exact ⟨fun fits => fits.2, fun fits => ⟨fits_gzipName fits, fits⟩⟩

omit writable in
/-- A file is published as it is. -/
theorem succeeds_publishPlain :
    Succeeds suffix fs.Kept (publishPlain config r.toObjectStore file name) True []
      fun _ => fs.Kept := by
  unfold publishPlain
  apply (Succeeds.count _).silent_bind
  intro _
  apply succeeds_upload undisturbed accepting config
  intro disk kept
  rw [bytesAt_kept sound kept]
  exact h.bytesAt

/-- **A regular file is published** if the names of the forms that are asked for are not too
long. -/
theorem succeeds_publish (c : Classification) :
    Succeeds suffix fs.Kept (publish config r.toObjectStore file name c)
      (c.tar = true → Fits (tarGzName name)) [] fun _ => fs.Kept := by
  rw [publish_eq]
  apply (succeeds_warning _ name).silent_bind
  intro _
  refine ((succeeds_onlyIf c.tar
    (succeeds_publishTar undisturbed accepting sound writable h)).bind fun _ =>
      succeeds_onlyIf c.plain (succeeds_publishPlain undisturbed accepting sound h)).congr ?_
  simp

end regular

/-! ## §2. Directories, and the walk. -/

/-- A candidate that leads to a regular file can be published. -/
theorem archivable_of_stat {fs : FileSystem} {dir : Path} {entry : RawText} {name : String}
    {n : Node} (step : entry.IsStep) (text : entry.toString? = some name)
    (hstat : fs.stat (dir.join entry) = .ok n) (regular : n.isFile = true) :
    Archivable fs (dir.join entry) name := by
  have named : RawText.ofString name = entry := RawText.ofString_of_toString? text
  refine ⟨⟨n, hstat, regular⟩, ?_, ?_⟩
  · rw [named]
    exact Path.fileName?_join dir (Tar.stepOf_of_isStep step) step.2
  · rw [named]
    exact (name_of_stat step hstat).1

/-- **A walk gets past an entry**: if it is a candidate, it leads somewhere, and if that is a
regular file to be archived, the name of the archive is not too long. -/
def Passes (config : Config) (disk : FileSystem) (dir : Path) (entry : RawText) : Prop :=
  ∀ name, entry.toString? = some name → (Classification.ofName config name).isCandidate = true →
    ∃ n, disk.stat (dir.join entry) = .ok n ∧
      (n.isFile = true → (Classification.ofName config name).tar = true → Fits (tarGzName name))

section entry

variable {config : Config} {disk : FileSystem} {dir : Path} {name : String}

/-- A walk gets past what is no candidate. -/
theorem passes_of_other (other : (Classification.ofName config name).isCandidate = false) :
    Passes config disk dir (RawText.ofString name) := by
  intro name' text candidate
  obtain rfl : name = name' := Option.some.inj ((RawText.toString?_ofString name).symm.trans text)
  rw [other] at candidate
  cases candidate

/-- A walk gets past what leads somewhere and, if that is a regular file, has no long name. -/
theorem passes_of_stat {n : Node} (hstat : disk.stat (dir.join (RawText.ofString name)) = .ok n)
    (fits : n.isFile = true → Fits (tarGzName name)) :
    Passes config disk dir (RawText.ofString name) := by
  intro name' text _
  obtain rfl : name = name' := Option.some.inj ((RawText.toString?_ofString name).symm.trans text)
  exact ⟨n, hstat, fun regular _ => fits regular⟩

end entry

/-- The entry if it is a candidate and leads to something other than a regular file. -/
def passedOver (config : Config) (disk : FileSystem) (dir : Path) (entry : RawText) : List Path :=
  match entry.toString? with
  | none => []
  | some name =>
    if (Classification.ofName config name).isCandidate ∧
        (disk.stat (dir.join entry)).toOption.any fun n => !n.isFile then
      [dir.join entry]
    else []

/-- What a directory lists, as far as it can be listed. -/
def listing (disk : FileSystem) (dir : Path) : List RawText :=
  (disk.readDirectory dir).toOption.elim [] Listing.names

section walk

variable {r : Receiver σ} (undisturbed : r.LeavesDisk) (accepting : r.TakesAll) {config : Config}
  {suffix : List RawText → RawText} {fs : FileSystem} (sound : fs.Sound)
  (writable : Scratch.Writable config fs suffix)

include undisturbed accepting sound writable

/-- **One entry.** -/
theorem succeeds_visit (dir : Path) {entry : RawText} (step : entry.IsStep) :
    Succeeds suffix fs.Kept (visit config r.toObjectStore dir entry) (Passes config fs dir entry)
      (passedOver config fs dir entry) fun _ => fs.Kept := by
  unfold visit Passes passedOver
  apply (Succeeds.count _).silent_bind
  intro _
  cases htext : entry.toString? with
  | none => exact (Succeeds.pure (E := fun _ => fs.Kept) ()).congr (by simp)
  | some name =>
    dsimp only
    cases candidate : (Classification.ofName config name).isCandidate with
    | false => exact (Succeeds.pure (E := fun _ => fs.Kept) ()).congr (by simp [candidate])
    | true =>
      rw [if_pos rfl]
      simp only [true_and]
      -- Where the look at the file finds something, the rest depends on what that is.
      have rest (node : Node) :
          Succeeds suffix (fun disk => fs.stat (dir.join entry) = .ok node ∧ fs.Kept disk)
            (if node.isFile then
              publish config r.toObjectStore (dir.join entry) name
                (Classification.ofName config name)
            else Work.log (.notRegular (dir.join entry)))
            (∀ n, fs.stat (dir.join entry) = .ok n → n.isFile = true →
              (Classification.ofName config name).tar = true → Fits (tarGzName name))
            (if (fs.stat (dir.join entry)).toOption.any fun n => !n.isFile then [dir.join entry]
            else []) fun _ => fs.Kept := by
        apply Succeeds.of_fact
        intro hstat
        rw [hstat]
        cases regular : node.isFile with
        | false =>
          rw [if_neg (by decide), if_pos (by simp [Except.toOption, regular])]
          exact (Succeeds.log _).congr (by simp [regular])
        | true =>
          have h := archivable_of_stat step htext hstat regular
          rw [if_pos rfl, if_neg (by simp [Except.toOption, regular])]
          have published := succeeds_publish undisturbed accepting sound writable h
            (Classification.ofName config name)
          exact published.congr (by simp [regular])
      refine ((Succeeds.look fun disk kept => stat_kept sound kept _).bind rest).congr ?_
      constructor
      · rintro ⟨⟨n, hstat⟩, fits⟩ _ ⟨rfl⟩ -
        exact ⟨n, hstat, fits n hstat⟩
      · intro passes
        obtain ⟨n, hstat, fits⟩ := passes name rfl candidate
        exact ⟨⟨n, hstat⟩, fun m hm => Except.ok.inj (hstat.symm.trans hm) ▸ fits⟩

/-- One directory that can be listed. -/
theorem succeeds_processDirectory {dir : Path} {entries : List RawText}
    (hlist : fs.listDirectory dir = .ok entries) :
    Succeeds suffix fs.Kept (processDirectory config r.toObjectStore dir)
      (∀ entry ∈ entries, Passes config fs dir entry)
      (entries.flatMap (passedOver config fs dir)) fun _ => fs.Kept := by
  unfold processDirectory
  apply (Succeeds.log _).silent_bind
  intro _
  apply (Succeeds.count _).silent_bind
  intro _
  have hread := listDirectory_eq_ok.1 hlist
  have opened : Succeeds suffix fs.Kept (list dir : Work σ Listing) True []
      fun found disk => fs.readDirectory dir = .ok found ∧ fs.Kept disk :=
    (Succeeds.look fun disk kept => readDirectory_kept sound kept dir).congr (by simp [hread])
  apply opened.silent_bind
  intro found
  apply Succeeds.of_fact
  intro hfound
  obtain rfl := Except.ok.inj (hread.symm.trans hfound)
  have steps := isStep_of_listDirectory sound hlist
  rw [forM_items]
  refine Succeeds.bind_silent (Succeeds.forM fun entry hentry => ?_) fun _ => ?_
  · exact succeeds_visit undisturbed accepting sound writable dir (steps entry hentry)
  · exact Succeeds.pure (E := fun _ => fs.Kept) ()

/-- **The walk.** -/
theorem succeeds_run
    (listable : ∀ dir ∈ config.dirs, ∃ entries, fs.listDirectory dir = .ok entries) :
    Succeeds suffix fs.Kept (run config r.toObjectStore)
      (∀ dir ∈ config.dirs, ∀ entry ∈ listing fs dir, Passes config fs dir entry)
      (config.dirs.flatMap fun dir => (listing fs dir).flatMap (passedOver config fs dir))
      fun _ => fs.Kept := by
  unfold run
  apply (Succeeds.count _).silent_bind
  intro _
  refine Succeeds.bind_silent (Succeeds.forM fun dir hdir => ?_) fun _ => ?_
  · obtain ⟨entries, hlist⟩ := listable dir hdir
    have same : listing fs dir = entries := by
      rw [listing, listDirectory_eq_ok.1 hlist]
      rfl
    rw [same]
    exact succeeds_processDirectory undisturbed accepting sound writable hlist
  · -- At last the counters are looked up.
    intro s hs kept
    refine ⟨fun _ => ⟨_, _, rfl⟩, fun report s' hrun => ?_⟩
    cases hrun
    exact ⟨trivial, hs, kept, (List.append_nil _).symm⟩

end walk

/-! ## §3. The law. -/

/-- **When a walk gets through, and what it does then.**  Let all directories be listable, the
working directory writable, and the receiver take everything.  Then a walk succeeds if and only if
it gets past every entry of the directories.  If it succeeds, it has warned once of every candidate
that is no regular file, in order, and has handed over all that was to be uploaded. -/
theorem run_completes (config : Config) {r : Receiver σ} (undisturbed : r.LeavesDisk)
    (accepting : r.TakesAll) {s : Session σ} (sound : s.disk.Sound)
    (writable : Scratch.Writable config s.disk s.suffix)
    (listable : ∀ dir ∈ config.dirs, ∃ entries, s.disk.listDirectory dir = .ok entries) :
    ((∃ report s', (run config r.toObjectStore).perform s = (.ok report, s')) ↔
      ∀ dir ∈ config.dirs, ∀ entry ∈ listing s.disk dir, Passes config s.disk dir entry) ∧
    ∀ report s', (run config r.toObjectStore).perform s = (.ok report, s') →
      s'.skipped = s.skipped ++
        config.dirs.flatMap (fun dir =>
          (listing s.disk dir).flatMap (passedOver config s.disk dir)) ∧
      ∃ made, s'.handovers = s.handovers ++ made ∧
        expectedUploads config s.disk = some (made.map Stored.object) := by
  have kept := Kept.refl s.disk
  obtain ⟨succeeds, succeeded⟩ :=
    succeeds_run undisturbed accepting sound writable listable s rfl kept
  refine ⟨⟨?_, succeeds⟩, ?_⟩
  · rintro ⟨report, s', hrun⟩
    exact (succeeded report s' hrun).1
  · intro report s' hrun
    obtain ⟨-, -, -, warned⟩ := succeeded report s' hrun
    exact ⟨warned, (hands_run undisturbed config sound s report s' kept hrun).2⟩

/-- A directory with a file, a directory, a pipe, a link to the pipe and a link to nothing. -/
def mixedDisk : FileSystem where
  nodes := #[
    ⟨.directory [⟨RawText.ofString "d", 1⟩, ⟨RawText.ofString "w", 7⟩] FileSystem.root,
      Node.directoryMode, 0⟩,
    ⟨.directory [⟨RawText.ofString "a.link", 5⟩, ⟨RawText.ofString "a.zkey", 2⟩,
      ⟨RawText.ofString "a.d", 3⟩, ⟨RawText.ofString "a.pipe", 4⟩, ⟨RawText.ofString "b.zkey", 6⟩]
      FileSystem.root, Node.directoryMode, 0⟩,
    Node.file (.ofBytes "a".toUTF8),
    ⟨.directory [] 1, Node.directoryMode, 0⟩,
    ⟨.fifo, Node.fileMode, 0⟩,
    ⟨.symlink (Path.ofString "a.pipe"), 0o777, 0⟩,
    ⟨.symlink (Path.ofString "nowhere"), 0o777, 0⟩,
    ⟨.directory [] FileSystem.root, Node.directoryMode, 0⟩]
  workingDirectory := FileSystem.root
  workingPath := Path.ofString "/"
  tempPath := Path.ofString "/w"

/-- The files whose names start so are published in three forms. -/
def mixedConfig (start : String) : Config :=
  { Config.default with
    tarPrefixes := [start], plainPrefixes := [], dirs := [Path.ofString "d"], uploadDir := "v1" }

def mixedSession : Session Unit := Session.start mixedDisk () fun _ => RawText.ofString "x"

theorem sound_mixedDisk : mixedDisk.Sound := by decide

theorem writable_mixedDisk (start : String) :
    Scratch.Writable (mixedConfig start) mixedDisk mixedSession.suffix := by
  have place : Scratch.place (mixedConfig start) mixedDisk mixedSession.suffix
      = Path.ofString "/w/.artifact-uploader-x" := by cbv
  constructor
  · rw [place]
    exact ⟨_, by cbv⟩
  · rw [place]
    decide

theorem listDirectory_mixedDisk :
    mixedDisk.listDirectory (Path.ofString "d") = .ok
      [RawText.ofString "a.link", RawText.ofString "a.zkey", RawText.ofString "a.d",
        RawText.ofString "a.pipe", RawText.ofString "b.zkey"] := by cbv

theorem listable_mixedDisk (start : String) : ∀ dir ∈ (mixedConfig start).dirs,
    ∃ entries, mixedDisk.listDirectory dir = .ok entries := by
  intro dir hdir
  cases List.mem_singleton.1 hdir
  exact ⟨_, listDirectory_mixedDisk⟩

/-- A walk past the directory, the pipe and the link to it. -/
theorem run_completes_mixed :
    ∃ report s', (run (mixedConfig "a.") Receiver.acceptAll.toObjectStore).perform mixedSession
        = (.ok report, s') ∧
      s'.skipped = [Path.ofString "d/a.link", Path.ofString "d/a.d", Path.ofString "d/a.pipe"] ∧
      s'.handovers.map Stored.key = ["v1/a.zkey", "v1/a.zkey.gz", "v1/a.zkey.tar.gz"] := by
  obtain ⟨through, done⟩ := run_completes (mixedConfig "a.") (s := mixedSession)
    Receiver.acceptAll_leavesDisk Receiver.acceptAll_takesAll sound_mixedDisk
    (writable_mixedDisk "a.") (listable_mixedDisk "a.")
  have passes : ∀ dir ∈ (mixedConfig "a.").dirs, ∀ entry ∈ listing mixedDisk dir,
      Passes (mixedConfig "a.") mixedDisk dir entry := by
    intro dir hdir entry hentry
    cases List.mem_singleton.1 hdir
    rw [listing, listDirectory_eq_ok.1 listDirectory_mixedDisk] at hentry
    simp only [Except.toOption, Option.elim_some, List.mem_cons, List.not_mem_nil, or_false]
      at hentry
    rcases hentry with rfl | rfl | rfl | rfl | rfl
    · exact passes_of_stat (n := ⟨.fifo, Node.fileMode, 0⟩) (by cbv) (by decide)
    · exact passes_of_stat (n := Node.file (.ofBytes "a".toUTF8)) (by cbv) (by decide)
    · exact passes_of_stat (n := ⟨.directory [] 1, Node.directoryMode, 0⟩) (by cbv) (by decide)
    · exact passes_of_stat (n := ⟨.fifo, Node.fileMode, 0⟩) (by cbv) (by decide)
    · exact passes_of_other (by decide)
  obtain ⟨report, s', hrun⟩ := through.2 passes
  obtain ⟨warned, made, handed, expected⟩ := done report s' hrun
  refine ⟨report, s', hrun, warned.trans (by cbv), ?_⟩
  have keys : s'.handovers.map Stored.key = (made.map Stored.object).map Prod.fst := by
    rw [handed, List.map_map]
    rfl
  rw [keys, ← Option.some.injEq, ← Option.map_some (f := List.map Prod.fst), ← expected]
  delta expectedUploads uploadsOfDirectory uploadsOf tarUploads Compression.gzipOf
    Compression.tarGzOf
  dsimp only
  -- What the compressed forms are is of no importance to the keys.
  generalize Gzip.encode = encode
  generalize Tar.archive = archive
  cbv

/-- What leads nowhere is not passed over: it ends the walk. -/
theorem not_always_completed :
    ¬ ∀ (config : Config) (s : Session Unit), s.disk.Sound →
      Scratch.Writable config s.disk s.suffix →
      (∀ dir ∈ config.dirs, ∃ entries, s.disk.listDirectory dir = .ok entries) →
      ∃ report s', (run config Receiver.acceptAll.toObjectStore).perform s = (.ok report, s') := by
  intro always
  obtain ⟨report, s', hrun⟩ := always (mixedConfig "b.") mixedSession sound_mixedDisk
    (writable_mixedDisk "b.") (listable_mixedDisk "b.")
  have failed : ((run (mixedConfig "b.") Receiver.acceptAll.toObjectStore).perform
      mixedSession).1.isOk = false := by cbv
  rw [hrun] at failed
  cases failed

end Walk
end ArtifactCourier
