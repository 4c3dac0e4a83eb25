/-
  ArtifactCourier.Proofs.Walk.Lockstep
  ──────────────────────────────────────
  **Two runs of one action, side by side.**

  Two walks over different disks are compared step by step.  Their sessions stay alike: the same
  was stored and counted, and the same was recorded, except that the second record may have lines
  about skipped files in between.  What the disks have to do with each other is said by a relation
  of its own: outside of scratch directories both are as they were, inside of one both have it at
  the same path.

    • `Interspersed` — one record with lines about skipped files put into it,
    • `Alike`, `EndsAlike`, `Together` — sessions, outcomes and actions,
    • `Together.bind`, `Together.orElseCleanUp` — the ways in which actions are put together,
    • `together_use` — a scratch directory is made and taken away in both runs or in neither,
    • `together_publish` — a regular file that is the same on both disks.
-/
import ArtifactCourier.Proofs.Compression.Outcome
import ArtifactCourier.Proofs.Walk.Completes
import ArtifactCourier.Proofs.Walk.LeavesDisk

namespace ArtifactCourier

open Store FileSystem Compression

variable {σ α β : Type}

/-! ## §1. What is alike. -/

/-- The counters without that of the entries. -/
def Report.withoutEntries (r : Report) : Report := { r with entries := 0 }

/-- **One record with lines put into it.**  Beginning with `e` and `e'`, two records go on with the
same events, but the second one has a line about each of the skipped files besides. -/
inductive Interspersed (e e' : Array Event) : Array Event → List Path → Array Event → Prop
  | start : Interspersed e e' e [] e'
  | both {a a' : Array Event} {skipped : List Path} (event : Event) :
      Interspersed e e' a skipped a' → Interspersed e e' (a.push event) skipped (a'.push event)
  | skip {a a' : Array Event} {skipped : List Path} (file : Path) :
      Interspersed e e' a skipped a' →
      Interspersed e e' a (skipped ++ [file]) (a'.push (.log (.notRegular file)))

namespace Interspersed

variable {e e' a a' : Array Event} {skipped : List Path}

/-- Where no file is skipped, both records go on in the same way. -/
theorem same (h : Interspersed e e' a skipped a') (none : skipped = []) :
    ∃ added, a = e ++ added ∧ a' = e' ++ added := by
  induction h with
  | start => exact ⟨#[], by simp, by simp⟩
  | both event _ ih =>
    obtain ⟨added, rfl, rfl⟩ := ih none
    exact ⟨added.push event, by simp, by simp⟩
  | skip => simp at none

/-- **The same files are handed over**, whatever is skipped. -/
theorem handovers (h : Interspersed e e' a skipped a') :
    ∃ made, a.toList.filterMap Event.handover? = e.toList.filterMap Event.handover? ++ made ∧
      a'.toList.filterMap Event.handover? = e'.toList.filterMap Event.handover? ++ made := by
  induction h with
  | start => exact ⟨[], by simp, by simp⟩
  | both event _ ih =>
    obtain ⟨made, first, second⟩ := ih
    refine ⟨made ++ [event].filterMap Event.handover?, ?_, ?_⟩ <;>
      simp only [Array.toList_push, List.filterMap_append, first, second, List.append_assoc]
  | skip file _ ih =>
    obtain ⟨made, first, second⟩ := ih
    refine ⟨made, first, ?_⟩
    rw [Array.toList_push, List.filterMap_append, second]
    exact List.append_nil _

end Interspersed

/-- **Sessions are alike** that came about from `s` and `s'`. -/
structure Alike (s s' : Session σ) (D : FileSystem → FileSystem → Prop) (skipped : List Path)
    (t t' : Session σ) : Prop where
  disk : D t.disk t'.disk
  store : t'.store = t.store
  report : t'.report.withoutEntries = t.report.withoutEntries
  suffix : t.suffix = s.suffix
  suffix' : t'.suffix = s'.suffix
  record : Interspersed s.events s'.events t.events skipped t'.events

theorem Alike.onDisk {s s' t t' : Session σ} {D D' : FileSystem → FileSystem → Prop}
    {skipped : List Path} (h : Alike s s' D skipped t t') {d d' : FileSystem} (disk : D' d d') :
    Alike s s' D' skipped { t with disk := d } { t' with disk := d' } :=
  ⟨disk, h.store, h.report, h.suffix, h.suffix', h.record⟩

theorem Alike.weaken {s s' t t' : Session σ} {D D' : FileSystem → FileSystem → Prop}
    {skipped : List Path} (h : Alike s s' D skipped t t') (hD : ∀ d d', D d d' → D' d d') :
    Alike s s' D' skipped t t' :=
  ⟨hD _ _ h.disk, h.store, h.report, h.suffix, h.suffix', h.record⟩

/-- **Two runs end alike**: they succeed with the same result and leave `Q`, or they fail with the
same failure and leave `E`. -/
inductive EndsAlike {S : Type} (Q E : S → S → Prop) :
    Except Failure α × S → Except Failure α × S → Prop
  | ok {a : α} {t t' : S} : Q t t' → EndsAlike Q E (.ok a, t) (.ok a, t')
  | error {f : Failure} {t t' : S} : E t t' → EndsAlike Q E (.error f, t) (.error f, t')

namespace EndsAlike

variable {S : Type} {Q E : S → S → Prop} {x x' : Except Failure α × S}

/-- Two runs with the same outcome end alike. -/
theorem of_outcome (same : x'.1 = x.1) (hok : ∀ a, x.1 = .ok a → Q x.2 x'.2)
    (herror : ∀ f, x.1 = .error f → E x.2 x'.2) : EndsAlike Q E x x' := by
  obtain ⟨result, t⟩ := x
  obtain ⟨_, t'⟩ := x'
  cases same
  cases result with
  | ok a => exact .ok (hok a rfl)
  | error f => exact .error (herror f rfl)

theorem bind {Q E R : Session σ → Session σ → Prop} {w w' : Work σ α} {f f' : α → Work σ β}
    {t t' : Session σ} (first : EndsAlike Q E (w.perform t) (w'.perform t'))
    (second : ∀ a u u', Q u u' → EndsAlike R E ((f a).perform u) ((f' a).perform u')) :
    EndsAlike R E ((w >>= f).perform t) ((w' >>= f').perform t') := by
  rw [Work.perform_bind, Work.perform_bind]
  generalize w.perform t = x at first
  generalize w'.perform t' = x' at first
  cases first with
  | ok h => exact second _ _ _ h
  | error h => exact .error h

end EndsAlike

/-! ## §2. Actions side by side. -/

/-- **An action goes the same way from sessions that are alike.**  From disks with `P` it leaves
disks with `Q` after a success, and with `E` after a failure. -/
def Together (s s' : Session σ) (P Q E : FileSystem → FileSystem → Prop) (w : Work σ α) : Prop :=
  ∀ skipped t t', Alike s s' P skipped t t' →
    EndsAlike (Alike s s' Q skipped) (Alike s s' E skipped) (w.perform t) (w.perform t')

namespace Together

variable {s s' : Session σ} {P Q E R F : FileSystem → FileSystem → Prop} {w : Work σ α}

theorem pure (a : α) : Together s s' P P E (pure a) := fun _ _ _ alike => .ok alike

theorem bind {f : α → Work σ β} (first : Together s s' P Q E w)
    (second : ∀ a, Together s s' Q R E (f a)) : Together s s' P R E (w >>= f) :=
  fun skipped t t' alike => (first skipped t t' alike).bind fun a u u' => second a skipped u u'

theorem weaken {Q' : FileSystem → FileSystem → Prop} (h : Together s s' P Q E w)
    (hQ : ∀ d d', Q d d' → Q' d d') (hE : ∀ d d', E d d' → F d d') :
    Together s s' P Q' F w := by
  intro skipped t t' alike
  have ends := h skipped t t' alike
  generalize w.perform t = x at ends ⊢
  generalize w.perform t' = x' at ends ⊢
  cases ends with
  | ok left => exact .ok (left.weaken hQ)
  | error left => exact .error (left.weaken hE)

theorem log (line : Log.Line) : Together s s' P P E (Work.log line) :=
  fun _ _ _ h => .ok ⟨h.disk, h.store, h.report, h.suffix, h.suffix', h.record.both _⟩

/-- What is counted does not depend on how many entries there were. -/
theorem count (change without : Report → Report)
    (h : ∀ r, (change r).withoutEntries = without r.withoutEntries) :
    Together s s' P P E (Work.count change) := by
  intro skipped t t' alike
  refine .ok ⟨alike.disk, alike.store, ?_, alike.suffix, alike.suffix', alike.record⟩
  exact (h _).trans ((congrArg without alike.report).trans (h _).symm)

theorem onDisk {action : Disk α}
    (h : ∀ d d', P d d' → EndsAlike Q E (action.perform d) (action.perform d')) :
    Together s s' P Q E (Work.onDisk action) := by
  intro skipped t t' alike
  have ends := h _ _ alike.disk
  rw [Work.perform_onDisk, Work.perform_onDisk]
  generalize action.perform t.disk = x at ends ⊢
  generalize action.perform t'.disk = x' at ends ⊢
  cases ends with
  | ok left => exact .ok (alike.onDisk left)
  | error left => exact .error (alike.onDisk left)

/-- **Cleaning up after a failure** takes place in both runs or in neither. -/
theorem orElseCleanUp {c : Work σ Unit} {change : FileSystem → FileSystem}
    (h : Together s s' P Q E w) (hc : CleansUp c change)
    (hE : ∀ d d', E d d' → F (change d) (change d')) :
    Together s s' P Q F (Work.orElseCleanUp w c) := by
  intro skipped t t' alike
  have ends := h skipped t t' alike
  rw [hc.perform_orElseCleanUp, hc.perform_orElseCleanUp]
  generalize w.perform t = x at ends ⊢
  generalize w.perform t' = x' at ends ⊢
  cases ends with
  | ok left => exact .ok left
  | error left => exact .error (left.onDisk (hE _ _ left.disk))

end Together

/-! ## §3. Scratch directories. -/

section disks

variable (s s' : Session σ)

/-- Both disks are as they were. -/
def Outside (d d' : FileSystem) : Prop := s.disk.Kept d ∧ s'.disk.Kept d'

/-- Both disks have a scratch directory at the same path. -/
def Inside (scratch : Path) (ids : NodeId × NodeId) (names : List RawText) (d d' : FileSystem) :
    Prop :=
  s.disk.HoldsAtMost scratch ids.1 names d ∧ s'.disk.HoldsAtMost scratch ids.2 names d'

/-- **Scratch directories are granted at the same path** on both disks, or refused on both for the
same reason. -/
def SameScratch (config : Config) : Prop :=
  ((Scratch.create config).perform s').1 = ((Scratch.create config).perform s).1

end disks

namespace Walk

section scratch

variable {s s' : Session σ} {config : Config}

/-- What comes of making a scratch directory. -/
theorem perform_create (config : Config) (t : Session σ) :
    (Scratch.create config).perform t =
      match t.disk.makeNode (Scratch.place config t.disk t.suffix)
        fun parent => ⟨.directory [] parent, Scratch.mode, 0⟩ with
      | .ok disk => (.ok (Scratch.place config t.disk t.suffix), { t with disk := disk })
      | .error e =>
        (.error ⟨.scratchDirectory config.workDir, [Scratch.refusal (Scratch.home config t.disk)
          (Scratch.place config t.disk t.suffix) e]⟩, t) := by
  unfold Scratch.create
  rw [Work.perform_bind, Work.perform_get]
  dsimp only
  rw [Work.perform_bind, Work.perform_onDisk, Disk.perform_bind, Disk.perform_get]
  dsimp only
  cases t.disk.makeNode (Scratch.place config t.disk t.suffix)
    (fun parent => ⟨.directory [] parent, Scratch.mode, 0⟩) <;> rfl

/-- Where no scratch directory is made, nothing happens. -/
theorem eq_of_perform_create_eq_error {t u : Session σ} {f : Failure}
    (h : (Scratch.create config).perform t = (.error f, u)) : u = t := by
  rw [perform_create] at h
  split at h <;> cases h
  rfl

/-- Where everything is kept, a scratch directory is granted or refused as before. -/
theorem create_kept {t : Session σ} (sound : s.disk.Sound) (kept : s.disk.Kept t.disk)
    (suffix : t.suffix = s.suffix) :
    ((Scratch.create config).perform t).1 = ((Scratch.create config).perform s).1 := by
  rw [perform_create, perform_create, suffix, Scratch.place_kept sound kept,
    Scratch.home_kept kept]
  have same := verdict_makeNode_kept sound kept (Scratch.place config s.disk s.suffix)
    fun parent => ⟨.directory [] parent, Scratch.mode, 0⟩
  cases h : s.disk.makeNode (Scratch.place config s.disk s.suffix)
      fun parent => ⟨.directory [] parent, Scratch.mode, 0⟩ with
  | error e =>
    rw [h] at same
    rw [verdict_eq_error.1 same]
  | ok made =>
    rw [h] at same
    obtain ⟨made', h'⟩ := verdict_eq_ok.1 same
    rw [h']

variable (sound : s.disk.Sound) (sound' : s'.disk.Sound)

include sound sound'

/-- Taking a scratch directory away brings back what was there, on both disks. -/
theorem exists_removeTree {scratch : Path} {ids : NodeId × NodeId} {names : List RawText}
    {d d' : FileSystem} (inside : Inside s s' scratch ids names d d') :
    ∃ disk disk', d.removeTree scratch = .ok disk ∧ d'.removeTree scratch = .ok disk' ∧
      Outside s s' disk disk' := by
  obtain ⟨disk, removed, kept⟩ := inside.1.toHasScratch.removeTree sound
  obtain ⟨disk', removed', kept'⟩ := inside.2.toHasScratch.removeTree sound'
  exact ⟨disk, disk', removed, removed', kept, kept'⟩

theorem together_close {scratch : Path} {ids : NodeId × NodeId} {names : List RawText} :
    Together s s' (Inside s s' scratch ids names) (Outside s s') (Outside s s')
      (Scratch.close scratch) := by
  intro skipped t t' alike
  obtain ⟨disk, disk', removed, removed', outside⟩ := exists_removeTree sound sound' alike.disk
  rw [perform_close_eq_ok.2 ⟨disk, removed, rfl⟩, perform_close_eq_ok.2 ⟨disk', removed', rfl⟩]
  exact .ok (alike.onDisk outside)

/-- **Work with a scratch directory** goes the same way if the work in it does. -/
theorem together_use (same : SameScratch s s' config) (names : List RawText)
    {work : Path → Work σ Unit}
    (h : ∀ scratch ids, Together s s' (Inside s s' scratch ids names)
      (Inside s s' scratch ids names) (Inside s s' scratch ids names) (work scratch)) :
    Together s s' (Outside s s') (Outside s s') (Outside s s') (Scratch.use config work) := by
  intro skipped t t' alike
  obtain ⟨kept, kept'⟩ := alike.disk
  have granted : ((Scratch.create config).perform t').1 = ((Scratch.create config).perform t).1 :=
    (create_kept sound' kept' alike.suffix').trans
      (same.trans (create_kept sound kept alike.suffix).symm)
  unfold Scratch.use
  rw [Work.perform_bind, Work.perform_bind]
  rcases hcreate : (Scratch.create config).perform t with ⟨f | scratch, u⟩ <;>
    rcases hcreate' : (Scratch.create config).perform t' with ⟨f' | scratch', u'⟩ <;>
    rw [hcreate, hcreate'] at granted <;> cases granted
  · obtain rfl := eq_of_perform_create_eq_error hcreate
    obtain rfl := eq_of_perform_create_eq_error hcreate'
    exact .error alike
  · obtain ⟨-, made, hmake, rfl⟩ := perform_create_eq_ok.1 hcreate
    obtain ⟨-, made', hmake', rfl⟩ := perform_create_eq_ok.1 hcreate'
    obtain ⟨id, holds⟩ := holdsAtMost_of_makeNode sound kept hmake
    obtain ⟨id', holds'⟩ := holdsAtMost_of_makeNode sound' kept' hmake'
    have worked := (h scratch (id, id')).orElseCleanUp (cleansUp_discard scratch)
      (F := Outside s s') ?discarded
    case discarded =>
      intro d d' inside
      obtain ⟨disk, disk', removed, removed', outside⟩ := exists_removeTree sound sound' inside
      rw [removed, removed']
      exact outside
    refine worked.bind (fun _ => together_close sound sound') skipped _ _ ?_
    exact alike.onDisk ⟨holds names, holds' names⟩

end scratch

/-! ## §4. Copies. -/

/-- **What an action does in a scratch directory** of `fs`, whatever else there is in it: its
outcome is known, it leaves nothing outside, and if it succeeds, `copy` holds what is known too. -/
structure Makes (fs : FileSystem) (scratch : Path) (names : List RawText) (copy : Path)
    (action : Disk α) (outcome : Except Failure α) (held : Option ByteArray) : Prop where
  outcome : ∀ id d, fs.HoldsAtMost scratch id names d → (action.perform d).1 = outcome
  leaves : ∀ id d, fs.HoldsAtMost scratch id names d →
    fs.HoldsAtMost scratch id names (action.perform d).2
  holds : ∀ id d a d', fs.HoldsAtMost scratch id names d → action.perform d = (.ok a, d') →
    (d'.bytesAt copy).toOption = held

section makes

variable {fs : FileSystem} {source : Path} (scratch : Path) {name : RawText}
  {names : List RawText} {n : Node} (sound : fs.Sound) (step : name.IsStep) (mem : name ∈ names)
  (hstat : fs.stat source = .ok n) (regular : n.isFile = true)

include sound step mem hstat regular

theorem makes_gzipFile :
    Makes fs scratch names (scratch.join name) (gzipFile source (scratch.join name))
      (gzipOutcome scratch name n) (gzipOf fs source) where
  outcome _ _ h := gzipFile_outcome sound h.toHasScratch step hstat regular
  leaves _ _ h := gzipFile_leaves sound h step mem source
  holds _ _ _ _ h hrun := (gzipFile_in_scratch sound h.toHasScratch step hstat regular hrun).2

theorem makes_tarGzFile :
    Makes fs scratch names (scratch.join name) (tarGzFile source (scratch.join name))
      (tarGzOutcome source scratch name n (fs.ownerAt source)) (tarGzOf fs source) where
  outcome _ _ h := tarGzFile_outcome sound h.toHasScratch step hstat regular
  leaves _ _ h := tarGzFile_leaves sound h step mem source
  holds _ _ _ _ h hrun := (tarGzFile_in_scratch sound h.toHasScratch step hstat regular hrun).2

end makes

/-- Disks that are related, and on which `file` holds the same. -/
def Reads (file : Path) (D : FileSystem → FileSystem → Prop) (d d' : FileSystem) : Prop :=
  D d d' ∧ d'.bytesAt file = d.bytesAt file

/-- **A copy that is made in both runs** holds the same. -/
theorem together_of_makes {s s' : Session σ} {scratch copy : Path} (ids : NodeId × NodeId)
    {names : List RawText} {action : Disk α} {outcome : Except Failure α}
    {held : Option ByteArray} (some : held.isSome = true)
    (first : Makes s.disk scratch names copy action outcome held)
    (second : Makes s'.disk scratch names copy action outcome held) :
    Together s s' (Inside s s' scratch ids names) (Reads copy (Inside s s' scratch ids names))
      (Inside s s' scratch ids names) (Work.onDisk action) := by
  apply Together.onDisk
  rintro d d' ⟨h, h'⟩
  have outcome := first.outcome _ _ h
  have outcome' := second.outcome _ _ h'
  have left : Inside s s' scratch ids names (action.perform d).2 (action.perform d').2 :=
    ⟨first.leaves _ _ h, second.leaves _ _ h'⟩
  refine .of_outcome (outcome'.trans outcome.symm) (fun a hok => ⟨left, ?_⟩) fun _ _ => left
  have hok' : (action.perform d').1 = .ok a := outcome'.trans (outcome.symm.trans hok)
  have holds := first.holds _ _ a _ h (Prod.ext hok rfl)
  have holds' := second.holds _ _ a _ h' (Prod.ext hok' rfl)
  obtain ⟨bytes, hbytes⟩ := exists_of_toOption_eq holds some
  obtain ⟨bytes', hbytes'⟩ := exists_of_toOption_eq holds' some
  rw [hbytes] at holds ⊢
  rw [hbytes'] at holds' ⊢
  rw [Option.some.inj (holds'.trans holds.symm)]

/-! ## §5. One file. -/

/-- **A regular file that is the same on both disks**, under a name that is text. -/
structure SameFile (fs fs' : FileSystem) (file : Path) (name : String) (n : Node) : Prop where
  stat : fs.stat file = .ok n
  stat' : fs'.stat file = .ok n
  owner : fs'.ownerAt file = fs.ownerAt file
  regular : n.isFile = true
  base : file.fileName? = some (RawText.ofString name)

namespace SameFile

variable {fs fs' : FileSystem} {file : Path} {name : String} {n : Node}
  (h : SameFile fs fs' file name n)

include h

theorem step : (RawText.ofString name).IsStep := (Path.isStep_of_fileName? h.base).1

theorem bytesAt : fs'.bytesAt file = fs.bytesAt file := by
  obtain ⟨stat, stat', -, regular, -⟩ := h
  obtain ⟨id, hlocate, hnode⟩ := stat_eq_ok.1 stat
  obtain ⟨id', hlocate', hnode'⟩ := stat_eq_ok.1 stat'
  obtain ⟨kind, mode, mtime⟩ := n
  cases kind with
  | file content => rw [bytesAt_of_file hlocate hnode, bytesAt_of_file hlocate' hnode']
  | _ => cases regular

theorem gzipOf : gzipOf fs' file = gzipOf fs file := by
  unfold Compression.gzipOf
  rw [h.bytesAt]

theorem tarGzOf : tarGzOf fs' file = tarGzOf fs file := by
  unfold Compression.tarGzOf archiveMembers
  rw [h.stat, h.stat', h.owner]

end SameFile

section file

variable {r : Receiver σ} (undisturbed : r.LeavesDisk) (config : Config) {s s' : Session σ}
  {P E : FileSystem → FileSystem → Prop} {file : Path} {name : String} {n : Node}

theorem together_onlyIf (asked : Bool) {w : Work σ Unit}
    (h : asked = true → Together s s' P P E w) : Together s s' P P E (onlyIf asked w) := by
  cases asked
  · exact Together.pure ()
  · exact h rfl

include undisturbed

/-- **A receiver is handed the same** and gives the same answer. -/
theorem together_store (key : String) (h : ∀ d d', P d d' → d'.bytesAt file = d.bytesAt file) :
    Together s s' P P P (r.toObjectStore.upload file key) := by
  intro skipped t t' alike
  rw [Receiver.perform_upload undisturbed, Receiver.perform_upload undisturbed, h _ _ alike.disk,
    alike.store]
  cases t.disk.bytesAt file with
  | error e => exact .error alike
  | ok content =>
    have left := alike.record.both (.handedOver key file content)
    dsimp only
    rcases r.answer ⟨key, file, content⟩ t.store with ⟨f | _, state⟩
    · exact .error ⟨alike.disk, rfl, alike.report, alike.suffix, alike.suffix', left⟩
    · exact .ok ⟨alike.disk, rfl, alike.report, alike.suffix, alike.suffix', left⟩

theorem together_upload (h : ∀ d d', P d d' → d'.bytesAt file = d.bytesAt file) :
    Together s s' P P P (upload config r.toObjectStore file name) := by
  unfold upload
  apply (Together.log _).bind
  intro _
  apply (together_store undisturbed _ h).bind
  intro _
  apply (Together.log _).bind
  intro _
  exact Together.count Report.addUpload Report.addUpload fun _ => rfl

variable (sound : s.disk.Sound) (sound' : s'.disk.Sound)
  (same : SameFile s.disk s'.disk file name n)

include sound sound' same

omit undisturbed in
theorem bytesAt_outside {d d' : FileSystem} (outside : Outside s s' d d') :
    d'.bytesAt file = d.bytesAt file := by
  rw [bytesAt_kept sound outside.1, bytesAt_kept sound' outside.2, same.bytesAt]

section copies

variable {scratch : Path} {ids : NodeId × NodeId} {names : List RawText}

theorem together_publishGzip (mem : RawText.ofString (gzipName name) ∈ names) :
    Together s s' (Inside s s' scratch ids names) (Inside s s' scratch ids names)
      (Inside s s' scratch ids names)
      (publishGzip config r.toObjectStore file name scratch) := by
  have step := same.step.gzipName
  have first := makes_gzipFile scratch sound step mem same.stat same.regular
  have second := makes_gzipFile scratch sound' step mem same.stat' same.regular
  rw [same.gzipOf] at second
  have made := together_of_makes ids (isSome_gzipOf same.stat same.regular) first second
  unfold publishGzip
  apply (Together.log _).bind
  intro _
  apply (made.bind fun _ => Together.pure PUnit.unit).bind
  intro _
  exact (together_upload undisturbed config fun _ _ h => h.2).weaken (fun _ _ h => h.1)
    fun _ _ h => h.1

theorem together_publishTarGz (mem : RawText.ofString (tarGzName name) ∈ names) :
    Together s s' (Inside s s' scratch ids names) (Inside s s' scratch ids names)
      (Inside s s' scratch ids names)
      (publishTarGz config r.toObjectStore file name scratch) := by
  have step := same.step.tarGzName
  have first := makes_tarGzFile scratch sound step mem same.stat same.regular
  have second := makes_tarGzFile scratch sound' step mem same.stat' same.regular
  rw [same.tarGzOf, same.owner] at second
  have made := together_of_makes ids (isSome_tarGzOf same.stat same.regular same.base rfl)
    first second
  unfold publishTarGz
  apply (Together.log _).bind
  intro _
  apply made.bind
  intro _
  exact (together_upload undisturbed config fun _ _ h => h.2).weaken (fun _ _ h => h.1)
    fun _ _ h => h.1

end copies

theorem together_publishPlain :
    Together s s' (Outside s s') (Outside s s') (Outside s s')
      (publishPlain config r.toObjectStore file name) := by
  unfold publishPlain
  apply (Together.count Report.addPlainCandidate Report.addPlainCandidate fun _ => rfl).bind
  intro _
  exact together_upload undisturbed config fun _ _ => bytesAt_outside sound sound' same

theorem together_publishTar (place : SameScratch s s' config) :
    Together s s' (Outside s s') (Outside s s') (Outside s s')
      (publishTar config r.toObjectStore file name) := by
  unfold publishTar
  apply (Together.count Report.addTarCandidate Report.addTarCandidate fun _ => rfl).bind
  intro _
  apply (together_upload undisturbed config fun _ _ => bytesAt_outside sound sound' same).bind
  intro _
  apply together_use sound sound' place (copyNames name)
  intro scratch ids
  apply (together_publishGzip undisturbed config sound sound' same List.mem_cons_self).bind
  intro _
  exact together_publishTarGz undisturbed config sound sound' same
    (List.mem_cons_of_mem _ List.mem_cons_self)

/-- **A regular file is published in the same way.**  Scratch directories are made for tar
candidates only. -/
theorem together_publish (c : Classification) (place : c.tar = true → SameScratch s s' config) :
    Together s s' (Outside s s') (Outside s s') (Outside s s')
      (publish config r.toObjectStore file name c) := by
  rw [publish_eq]
  apply (together_onlyIf _ fun _ => Together.log _).bind
  intro _
  apply (together_onlyIf _ fun tar =>
    together_publishTar undisturbed config sound sound' same (place tar)).bind
  intro _
  exact together_onlyIf _ fun _ => together_publishPlain undisturbed config sound sound' same

end file

end Walk
end ArtifactCourier
