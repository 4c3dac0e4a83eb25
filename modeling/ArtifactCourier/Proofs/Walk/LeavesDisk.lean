/-
  ArtifactCourier.Proofs.Walk.LeavesDisk
  ──────────────────────────────────────
  **A walk leaves the disk as it found it.**

  Whether a walk ends well or with a failure, and whatever it is that fails, every path leads
  afterwards to what it led to before.  While files are uploaded the disk is as it was, or there
  is one scratch directory more, with the copies of one file.

  What the disk is like at the attempts to upload is told by a store that is watched: it
  does what the store does and keeps a sighting of every attempt.  `Watches G P w v Q E` says
  that `v` is `w` with a watched store: from a disk with `P` both come to the same, every
  sighting has `G`, and the disk has `Q` after a success and `E` after a failure.

    • `Watches.bind`, `Watches.forM`, `Watches.orElseCleanUp` — through all ways in which actions
      are put together,
    • `watches_use` — a scratch directory is gone on every exit,
    • `watches_run` — the whole walk,
    • `run_leaves_disk` — the law.
-/
import ArtifactCourier.Proofs.FileSystem.ScratchContents
import ArtifactCourier.Proofs.Scratch
import ArtifactCourier.Proofs.Store.Conduct
import ArtifactCourier.Proofs.Walk.Uploads

namespace ArtifactCourier

open Store FileSystem Compression

variable {σ α β : Type}

/-! ## §1. Stores that are watched. -/

/-- An attempt to upload a file, and the disk as it was then. -/
structure Sighting where
  file : Path
  key : String
  disk : FileSystem

/-- The same session in front of a watched store. -/
def Session.watched (s : Session σ) (seen : List Sighting) : Session (σ × List Sighting) :=
  s.withStore (s.store, seen)

namespace ObjectStore

/-- **The same store, watched**: it keeps a sighting of every attempt to upload, in order. -/
def watched (store : ObjectStore σ) : ObjectStore (σ × List Sighting) where
  upload file key := ExceptT.mk fun s =>
    let (result, after) := (store.upload file key).perform (s.withStore s.store.1)
    (result, after.watched (s.store.2 ++ [⟨file, key, s.disk⟩]))

/-- The store touches no file of the disk. -/
def LeavesDisk (store : ObjectStore σ) : Prop :=
  ∀ file key s, ((store.upload file key).perform s).2.disk = s.disk

end ObjectStore

theorem Store.Receiver.LeavesDisk.toObjectStore {r : Receiver σ} (h : r.LeavesDisk) :
    r.toObjectStore.LeavesDisk := by
  intro file key s
  rw [Receiver.perform_upload h]
  cases s.disk.bytesAt file <;> rfl

/-- A service leaves the disk alone if nobody else is at it during its requests. -/
theorem Store.Service.leavesDisk_toObjectStore {service : Service σ}
    (h : ∀ r s disk, service.meanwhile r s disk = disk) (bucket : String) :
    (service.toObjectStore bucket).LeavesDisk := by
  have conducted : ∀ {γ : Type} (x : Exchange γ) (s : Session σ),
      (service.conduct x s).2.disk = s.disk := by
    intro γ x s
    induction x generalizing s with
    | done a => rfl
    | send r next ih => exact (ih _ _).trans (h _ _ _)
    | log line next ih => exact ih _
    | _ => rename_i ih; exact ih _ s
  intro file key s
  rw [Service.perform_toObjectStore]
  exact conducted _ _

/-! ## §2. Watching. -/

/-- What the disk is like in the end: it has `Q` after a success and `E` after a failure. -/
structure Ends (Q : α → FileSystem → Prop) (E : FileSystem → Prop)
    (x : Except Failure α × Session σ) : Prop where
  ok : ∀ a, x.1 = .ok a → Q a x.2.disk
  error : ∀ f, x.1 = .error f → E x.2.disk

/-- **`v` is `w` with a watched store.** -/
def Watches (G : Sighting → Prop) (P : FileSystem → Prop) (w : Work σ α)
    (v : Work (σ × List Sighting) α) (Q : α → FileSystem → Prop) (E : FileSystem → Prop) : Prop :=
  ∀ s seen, P s.disk →
    Ends Q E (w.perform s) ∧
      ∃ more, v.perform (s.watched seen)
          = ((w.perform s).1, (w.perform s).2.watched (seen ++ more)) ∧
        ∀ x ∈ more, G x

namespace Watches

variable {G : Sighting → Prop} {P E : FileSystem → Prop} {Q : α → FileSystem → Prop}
  {R : β → FileSystem → Prop} {w : Work σ α} {v : Work (σ × List Sighting) α}

/-- After a success the disk has `Q`. -/
theorem ok (h : Watches G P w v Q E) {s s' : Session σ} {a : α} (hP : P s.disk)
    (hrun : w.perform s = (.ok a, s')) : Q a s'.disk := by
  have ends := (h s [] hP).1
  rw [hrun] at ends
  exact ends.ok a rfl

/-- What uploads nothing and does the same in front of a watched store. -/
theorem of_silent
    (same : ∀ s seen, v.perform (s.watched seen) = ((w.perform s).1, (w.perform s).2.watched seen))
    (h : ∀ s, P s.disk → Ends Q E (w.perform s)) : Watches G P w v Q E := by
  intro s seen hP
  refine ⟨h s hP, [], ?_, fun _ hx => absurd hx List.not_mem_nil⟩
  rw [List.append_nil]
  exact same s seen

theorem pure (a : α) : Watches (σ := σ) G (Q a) (pure a) (pure a) Q E := by
  refine of_silent (fun _ _ => rfl) fun s hQ => ⟨?_, fun f hf => by cases hf⟩
  intro b hb
  cases hb
  exact hQ

theorem bind {f : α → Work σ β} {g : α → Work (σ × List Sighting) β}
    (first : Watches G P w v Q E) (second : ∀ a, Watches G (Q a) (f a) (g a) R E) :
    Watches G P (w >>= f) (v >>= g) R E := by
  intro s seen hP
  obtain ⟨ends, more, went, good⟩ := first s seen hP
  rw [Work.perform_bind, Work.perform_bind, went]
  rcases hw : w.perform s with ⟨e | a, s'⟩ <;> rw [hw] at ends
  · exact ⟨⟨fun b hb => (by cases hb), fun f _ => ends.error e rfl⟩, more, rfl, good⟩
  · obtain ⟨ends', more', went', good'⟩ := second a s' (seen ++ more) (ends.ok a rfl)
    refine ⟨ends', more ++ more', ?_, ?_⟩
    · rw [← List.append_assoc]
      exact went'
    · intro x hx
      rcases List.mem_append.1 hx with hx | hx
      · exact good x hx
      · exact good' x hx

theorem weaken {Q' : α → FileSystem → Prop} {E' : FileSystem → Prop} (h : Watches G P w v Q E)
    (hQ : ∀ a disk, Q a disk → Q' a disk) (hE : ∀ disk, E disk → E' disk) :
    Watches G P w v Q' E' := by
  intro s seen hP
  obtain ⟨ends, watched⟩ := h s seen hP
  exact ⟨⟨fun a ha => hQ a _ (ends.ok a ha), fun f hf => hE _ (ends.error f hf)⟩, watched⟩

/-- A fact that does not depend on the disk is at hand from then on. -/
theorem of_fact {φ : Prop} (h : φ → Watches G P w v Q E) :
    Watches G (fun disk => φ ∧ P disk) w v Q E :=
  fun s seen hP => h hP.1 s seen hP.2

/-- What there is on the disk may be named. -/
theorem of_exists {ι : Type} {P : ι → FileSystem → Prop} (h : ∀ i, Watches G (P i) w v Q E) :
    Watches G (fun disk => ∃ i, P i disk) w v Q E := by
  intro s seen given
  obtain ⟨i, hP⟩ := given
  exact h i s seen hP

/-- A choice that looks at the session looks at nothing that is watched. -/
theorem get_bind {f : Session σ → Work σ α}
    {g : Session (σ × List Sighting) → Work (σ × List Sighting) α}
    (h : ∀ s seen, P s.disk → Watches G P (f s) (g (s.watched seen)) Q E) :
    Watches G P (get >>= f) (get >>= g) Q E := by
  intro s seen hP
  rw [Work.perform_bind, Work.perform_bind, Work.perform_get, Work.perform_get]
  exact h s seen hP s seen hP

/-- An action on the disk uploads nothing. -/
theorem onDisk {action : Disk α}
    (hok : ∀ disk a, P disk → (action.perform disk).1 = .ok a → Q a (action.perform disk).2)
    (herror : ∀ disk f, P disk → (action.perform disk).1 = .error f → E (action.perform disk).2) :
    Watches (σ := σ) G P (Work.onDisk action) (Work.onDisk action) Q E := by
  refine of_silent (fun s seen => ?_) fun s hP => ?_
  · rw [Work.perform_onDisk, Work.perform_onDisk]
    rfl
  · rw [Work.perform_onDisk]
    exact ⟨fun a ha => hok _ a hP ha, fun f hf => herror _ f hP hf⟩

/-- What is looked up is what the disk says, and the disk stays as it is. -/
theorem look {p : Problem} {g : FileSystem → Except FileError α} {answer : Except FileError α}
    (h : ∀ disk, P disk → g disk = answer) :
    Watches (σ := σ) G P (Work.onDisk (Disk.look p g)) (Work.onDisk (Disk.look p g))
      (fun a disk => answer = .ok a ∧ P disk) P := by
  apply onDisk
  · intro disk a hP ha
    rw [Disk.perform_look] at ha ⊢
    rcases hg : g disk with e | b <;> rw [hg] at ha <;> cases ha
    exact ⟨(h disk hP).symm.trans hg, hP⟩
  · intro disk f hP _
    rw [Disk.perform_look]
    exact hP

theorem log (line : Log.Line) :
    Watches (σ := σ) G P (Work.log line) (Work.log line) (fun _ => P) E :=
  of_silent (fun _ _ => rfl) fun _ hP => ⟨fun _ _ => hP, fun f hf => by cases hf⟩

theorem count (change : Report → Report) :
    Watches (σ := σ) G P (Work.count change) (Work.count change) (fun _ => P) E :=
  of_silent (fun _ _ => rfl) fun _ hP => ⟨fun _ _ => hP, fun f hf => by cases hf⟩

/-- **Loops**: what every round leaves, they leave. -/
theorem forM {ι : Type} {l : List ι} {f : ι → Work σ PUnit}
    {g : ι → Work (σ × List Sighting) PUnit}
    (h : ∀ i ∈ l, Watches G P (f i) (g i) (fun _ => P) E) :
    Watches G P (l.forM f) (l.forM g) (fun _ => P) E := by
  induction l with
  | nil => exact Watches.pure (Q := fun _ => P) PUnit.unit
  | cons i l ih =>
    rw [List.forM, List.forM]
    exact (h i List.mem_cons_self).bind fun _ => ih fun j hj => h j (List.mem_cons_of_mem _ hj)

/-- **Cleaning up after a failure** leaves what the cleaning up makes of the disk. -/
theorem orElseCleanUp {c : Work σ Unit} {d : Work (σ × List Sighting) Unit}
    {change : FileSystem → FileSystem} {E' : FileSystem → Prop} (h : Watches G P w v Q E)
    (hc : CleansUp c change) (hd : CleansUp d change) (hE : ∀ disk, E disk → E' (change disk)) :
    Watches G P (Work.orElseCleanUp w c) (Work.orElseCleanUp v d) Q E' := by
  intro s seen hP
  obtain ⟨ends, more, went, good⟩ := h s seen hP
  rw [hc.perform_orElseCleanUp, hd.perform_orElseCleanUp, went]
  rcases hw : w.perform s with ⟨e | a, s'⟩ <;> rw [hw] at ends
  · exact ⟨⟨fun a ha => (by cases ha), fun _ _ => hE _ (ends.error e rfl)⟩, more, rfl, good⟩
  · exact ⟨⟨ends.ok, fun f hf => by cases hf⟩, more, rfl, good⟩

end Watches

/-! ## §3. What may be seen. -/

namespace Walk

/-- A file that a walk takes from one of the configured directories. -/
def TakesFile (config : Config) (fs : FileSystem) (file : Path) (name : String) : Prop :=
  ∃ dir ∈ config.dirs, ∃ entry, TakesFrom config fs dir entry name ∧ file = dir.join entry

/-- The names of the copies of a file. -/
def copyNames (name : String) : List RawText :=
  [RawText.ofString (gzipName name), RawText.ofString (tarGzName name)]

/-- **What the disk may be like at an attempt to upload** in a walk over `fs`.  A file that is
taken is uploaded from the disk as it was.  One of its copies is uploaded from a scratch
directory, which holds at most the two copies of this file and is all that the disk has more. -/
inductive Orderly (config : Config) (fs : FileSystem) : Sighting → Prop
  | original {file : Path} {name : String} {disk : FileSystem} :
      TakesFile config fs file name → fs.Kept disk →
      Orderly config fs ⟨file, destinationKey config.uploadDir name, disk⟩
  | copy {file : Path} {name form : String} {disk : FileSystem} {ending : RawText} {id : NodeId} :
      TakesFile config fs file name →
      fs.HoldsAtMost ((Scratch.home config fs).join (Scratch.name ending)) id (copyNames name)
        disk →
      form = gzipName name ∨ form = tarGzName name →
      Orderly config fs
        ⟨((Scratch.home config fs).join (Scratch.name ending)).join (RawText.ofString form),
          destinationKey config.uploadDir form, disk⟩

/-! ## §4. One file. -/

section file

variable {store : ObjectStore σ} (undisturbed : store.LeavesDisk) (config : Config)
  {G : Sighting → Prop} {P : FileSystem → Prop} {fs : FileSystem} {file : Path} {name : String}

include undisturbed in
/-- **One attempt to upload**: it is seen, and leaves the disk alone. -/
theorem watches_store (key : String) (h : ∀ disk, P disk → G ⟨file, key, disk⟩) :
    Watches G P (store.upload file key) (store.watched.upload file key) (fun _ => P) P := by
  intro s seen hP
  have still := undisturbed file key s
  refine ⟨⟨fun _ _ => still ▸ hP, fun _ _ => still ▸ hP⟩, [⟨file, key, s.disk⟩], rfl, ?_⟩
  intro x hx
  cases List.mem_singleton.1 hx
  exact h _ hP

theorem watches_onlyIf {E : FileSystem → Prop} (asked : Bool) {w : Work σ Unit}
    {v : Work (σ × List Sighting) Unit} (h : Watches G P w v (fun _ => P) E) :
    Watches G P (onlyIf asked w) (onlyIf asked v) (fun _ => P) E := by
  cases asked
  · exact Watches.pure (Q := fun _ => P) ()
  · exact h

include undisturbed in
theorem watches_upload
    (h : ∀ disk, P disk → G ⟨file, destinationKey config.uploadDir name, disk⟩) :
    Watches G P (upload config store file name) (upload config store.watched file name)
      (fun _ => P) P := by
  unfold upload
  apply (Watches.log _).bind
  intro _
  apply (watches_store undisturbed _ h).bind
  intro _
  exact (Watches.log _).bind fun _ => Watches.count _

/-- There is a new scratch directory, which is empty. -/
def HasEmptyScratch (config : Config) (fs : FileSystem) (scratch : Path) (disk : FileSystem) :
    Prop :=
  ∃ ending, ∃ id, scratch = (Scratch.home config fs).join (Scratch.name ending) ∧
    ∀ names, fs.HoldsAtMost scratch id names disk

/-- A scratch directory is made, or nothing is. -/
theorem watches_create (sound : fs.Sound) :
    Watches (σ := σ) G fs.Kept (Scratch.create config) (Scratch.create config)
      (HasEmptyScratch config fs) fs.Kept := by
  unfold Scratch.create
  apply Watches.get_bind
  intro s seen kept
  have home : Scratch.home config s.disk = Scratch.home config fs := Scratch.home_kept kept config
  obtain ⟨ending, place⟩ := Scratch.exists_draw_eq (Scratch.home config s.disk) s.suffix s.disk
    Scratch.retries (Scratch.taken s.disk (Scratch.home config s.disk))
  refine Watches.bind
    (Q := fun _ => HasEmptyScratch config fs (Scratch.place config s.disk s.suffix)) ?_
    fun _ => Watches.pure (Q := HasEmptyScratch config fs) (Scratch.place config s.disk s.suffix)
  apply Watches.onDisk
  · intro disk _ kept' hmade
    rw [Disk.perform_bind, Disk.perform_get] at hmade ⊢
    dsimp only at hmade ⊢
    rcases hmake : disk.makeNode (Scratch.place config s.disk s.suffix)
      (fun parent => ⟨.directory [] parent, Scratch.mode, 0⟩) with e | made <;>
      rw [hmake] at hmade
    · cases hmade
    · obtain ⟨id, holds⟩ := holdsAtMost_of_makeNode sound kept' hmake
      exact ⟨ending, id, place.trans (congrArg (Path.join · _) home), holds⟩
  · intro disk f kept' hfail
    rw [Disk.perform_bind, Disk.perform_get] at hfail ⊢
    dsimp only at hfail ⊢
    rcases hmake : disk.makeNode (Scratch.place config s.disk s.suffix)
      (fun parent => ⟨.directory [] parent, Scratch.mode, 0⟩) with e | made <;>
      rw [hmake] at hfail
    · exact kept'
    · cases hfail

/-- **A scratch directory is gone on every exit**, and what failed in it has left nothing. -/
theorem watches_use (sound : fs.Sound) (names : List RawText) {work : Path → Work σ Unit}
    {watchedWork : Path → Work (σ × List Sighting) Unit}
    (h : ∀ ending id scratch, scratch = (Scratch.home config fs).join (Scratch.name ending) →
      Watches G (fs.HoldsAtMost scratch id names) (work scratch) (watchedWork scratch)
        (fun _ => fs.HoldsAtMost scratch id names) (fs.HoldsAtMost scratch id names)) :
    Watches G fs.Kept (Scratch.use config work) (Scratch.use config watchedWork)
      (fun _ => fs.Kept) fs.Kept := by
  unfold Scratch.use
  apply (watches_create config sound).bind
  intro scratch
  apply Watches.of_exists
  intro ending
  apply Watches.of_exists
  intro id
  apply Watches.of_fact
  intro hscratch
  -- Taking the directory away brings back what was there, whether the work failed or not.
  have removed : ∀ disk, fs.HoldsAtMost scratch id names disk →
      ∃ disk', disk.removeTree scratch = .ok disk' ∧ fs.Kept disk' :=
    fun _ holds => holds.toHasScratch.removeTree sound
  have discarded : ∀ disk, fs.HoldsAtMost scratch id names disk →
      fs.Kept ((disk.removeTree scratch).toOption.getD disk) := by
    intro disk holds
    obtain ⟨disk', hremove, kept⟩ := removed disk holds
    rw [hremove]
    exact kept
  have worked := (h ending id scratch hscratch).orElseCleanUp (cleansUp_discard scratch)
    (cleansUp_discard scratch) discarded
  intro s seen holds
  refine worked.bind (fun _ => ?_) s seen (holds names)
  unfold Scratch.close
  apply Watches.onDisk
  · intro disk _ holds hclose
    obtain ⟨disk', hremove, kept⟩ := removed disk holds
    rw [Disk.perform_bind, Disk.perform_get]
    dsimp only
    rw [hremove]
    exact kept
  · intro disk f holds hclose
    obtain ⟨disk', hremove, kept⟩ := removed disk holds
    rw [Disk.perform_bind, Disk.perform_get] at hclose
    dsimp only at hclose
    rw [hremove] at hclose
    cases hclose

variable (sound : fs.Sound)

section copies

variable {names : List RawText} {scratch : Path} {id : NodeId}

include undisturbed sound

/-- The gzip copy. -/
theorem watches_publishGzip (hstep : (RawText.ofString (gzipName name)).IsStep)
    (hmem : RawText.ofString (gzipName name) ∈ names)
    (h : ∀ disk, fs.HoldsAtMost scratch id names disk →
      G ⟨scratch.join (RawText.ofString (gzipName name)),
        destinationKey config.uploadDir (gzipName name), disk⟩) :
    Watches G (fs.HoldsAtMost scratch id names) (publishGzip config store file name scratch)
      (publishGzip config store.watched file name scratch)
      (fun _ => fs.HoldsAtMost scratch id names) (fs.HoldsAtMost scratch id names) := by
  unfold publishGzip
  apply (Watches.log _).bind
  intro _
  have made : Watches (σ := σ) G (fs.HoldsAtMost scratch id names)
      (Work.onDisk (gzipFile file (scratch.join (RawText.ofString (gzipName name)))))
      (Work.onDisk (gzipFile file (scratch.join (RawText.ofString (gzipName name)))))
      (fun _ => fs.HoldsAtMost scratch id names) (fs.HoldsAtMost scratch id names) :=
    Watches.onDisk (fun disk _ holds _ => gzipFile_leaves sound holds hstep hmem file)
      fun disk _ holds _ => gzipFile_leaves sound holds hstep hmem file
  apply (made.bind fun _ =>
    Watches.pure (Q := fun _ => fs.HoldsAtMost scratch id names) PUnit.unit).bind
  intro _
  exact watches_upload undisturbed config h

/-- The archive. -/
theorem watches_publishTarGz (hstep : (RawText.ofString (tarGzName name)).IsStep)
    (hmem : RawText.ofString (tarGzName name) ∈ names)
    (h : ∀ disk, fs.HoldsAtMost scratch id names disk →
      G ⟨scratch.join (RawText.ofString (tarGzName name)),
        destinationKey config.uploadDir (tarGzName name), disk⟩) :
    Watches G (fs.HoldsAtMost scratch id names) (publishTarGz config store file name scratch)
      (publishTarGz config store.watched file name scratch)
      (fun _ => fs.HoldsAtMost scratch id names) (fs.HoldsAtMost scratch id names) := by
  unfold publishTarGz
  apply (Watches.log _).bind
  intro _
  have made : Watches (σ := σ) G (fs.HoldsAtMost scratch id names)
      (Work.onDisk (tarGzFile file (scratch.join (RawText.ofString (tarGzName name)))))
      (Work.onDisk (tarGzFile file (scratch.join (RawText.ofString (tarGzName name)))))
      (fun _ => fs.HoldsAtMost scratch id names) (fs.HoldsAtMost scratch id names) :=
    Watches.onDisk (fun disk _ holds _ => tarGzFile_leaves sound holds hstep hmem file)
      fun disk _ holds _ => tarGzFile_leaves sound holds hstep hmem file
  apply made.bind
  intro _
  exact watches_upload undisturbed config h

end copies

variable (taken : TakesFile config fs file name)

include undisturbed taken

theorem watches_publishPlain :
    Watches (Orderly config fs) fs.Kept (publishPlain config store file name)
      (publishPlain config store.watched file name) (fun _ => fs.Kept) fs.Kept := by
  unfold publishPlain
  apply (Watches.count _).bind
  intro _
  exact watches_upload undisturbed config fun disk kept => .original taken kept

include sound

theorem watches_publishTar (hstep : (RawText.ofString name).IsStep) :
    Watches (Orderly config fs) fs.Kept (publishTar config store file name)
      (publishTar config store.watched file name) (fun _ => fs.Kept) fs.Kept := by
  unfold publishTar
  apply (Watches.count _).bind
  intro _
  apply (watches_upload undisturbed config fun disk kept => .original taken kept).bind
  intro _
  apply watches_use config sound (copyNames name)
  intro ending id scratch hscratch
  have seen : ∀ form, form = gzipName name ∨ form = tarGzName name →
      ∀ disk, fs.HoldsAtMost scratch id (copyNames name) disk → Orderly config fs
        ⟨scratch.join (RawText.ofString form), destinationKey config.uploadDir form, disk⟩ := by
    subst hscratch
    exact fun form hform disk holds => .copy taken holds hform
  apply (watches_publishGzip undisturbed config sound hstep.gzipName List.mem_cons_self
    (seen _ (.inl rfl))).bind
  intro _
  exact watches_publishTarGz undisturbed config sound hstep.tarGzName
    (List.mem_cons_of_mem _ List.mem_cons_self) (seen _ (.inr rfl))

theorem watches_publish (hstep : (RawText.ofString name).IsStep) (c : Classification) :
    Watches (Orderly config fs) fs.Kept (publish config store file name c)
      (publish config store.watched file name c) (fun _ => fs.Kept) fs.Kept := by
  rw [publish_eq, publish_eq]
  apply (watches_onlyIf _ (Watches.log _)).bind
  intro _
  apply (watches_onlyIf _ (watches_publishTar undisturbed config sound taken hstep)).bind
  intro _
  exact watches_onlyIf _ (watches_publishPlain undisturbed config taken)

end file

/-! ## §5. Directories, and the walk. -/

section walk

variable {store : ObjectStore σ} (undisturbed : store.LeavesDisk) (config : Config)
  {fs : FileSystem} (sound : fs.Sound)

include undisturbed sound

theorem watches_visit {dir : Path} (hdir : dir ∈ config.dirs) {l : Listing}
    (hread : fs.readDirectory dir = .ok l) {entry : RawText} (hentry : entry ∈ l.names) :
    Watches (Orderly config fs) fs.Kept (visit config store dir entry)
      (visit config store.watched dir entry) (fun _ => fs.Kept) fs.Kept := by
  unfold visit
  apply (Watches.count _).bind
  intro _
  split
  · exact Watches.pure (Q := fun _ => fs.Kept) ()
  · next name htext =>
    dsimp only
    split
    · next candidate =>
      -- The look at the file tells what the disk told before the walk.
      apply (Watches.look fun disk kept => stat_kept sound kept (dir.join entry)).bind
      intro node
      apply Watches.of_fact
      intro hstat
      split
      · next regular =>
        have hname : (RawText.ofString name).IsStep := by
          rw [RawText.ofString_of_toString? htext]
          exact isStep_of_readDirectory sound hread entry hentry
        exact watches_publish undisturbed config sound
          ⟨dir, hdir, entry, ⟨⟨l, hread, hentry⟩, htext, candidate, node, hstat, regular⟩, rfl⟩
          hname _
      · exact Watches.log _
    · exact Watches.pure (Q := fun _ => fs.Kept) ()

theorem watches_processDirectory {dir : Path} (hdir : dir ∈ config.dirs) :
    Watches (Orderly config fs) fs.Kept (processDirectory config store dir)
      (processDirectory config store.watched dir) (fun _ => fs.Kept) fs.Kept := by
  unfold processDirectory
  apply (Watches.log _).bind
  intro _
  apply (Watches.count _).bind
  intro _
  apply (Watches.look fun disk kept => readDirectory_kept sound kept dir).bind
  intro l
  apply Watches.of_fact
  intro hread
  rw [forM_items, forM_items]
  apply (Watches.forM fun entry hentry =>
    watches_visit undisturbed config sound hdir hread hentry).bind
  intro _
  exact (Watches.look fun _ _ => rfl).weaken (fun _ _ h => h.2) fun _ h => h

/-- **The walk.** -/
theorem watches_run :
    Watches (Orderly config fs) fs.Kept (run config store) (run config store.watched)
      (fun _ => fs.Kept) fs.Kept := by
  unfold run
  apply (Watches.count _).bind
  intro _
  apply (Watches.forM fun dir hdir => watches_processDirectory undisturbed config sound hdir).bind
  intro _
  apply Watches.get_bind
  intro s seen _
  exact Watches.pure (Q := fun _ => fs.Kept) s.report

end walk

/-- **A walk leaves the disk as it found it.**  Let the store leave the disk alone.  Then,
however the walk ends, the disk shows the same afterwards as before.  And if the store is
watched, the walk goes as it goes anyway, and at every attempt to upload the disk is as it was
or has one scratch directory more, with at most the two copies of the file that is taken. -/
theorem run_leaves_disk (config : Config) {store : ObjectStore σ}
    (undisturbed : store.LeavesDisk) (s : Session σ) (sound : s.disk.Sound) :
    s.disk.SameFiles ((run config store).perform s).2.disk ∧
    ∃ seen,
      (run config store.watched).perform (s.watched [])
        = (((run config store).perform s).1, ((run config store).perform s).2.watched seen) ∧
      ∀ x ∈ seen, Orderly config s.disk x := by
  obtain ⟨ends, seen, went, good⟩ := watches_run undisturbed config sound s [] (Kept.refl s.disk)
  refine ⟨Kept.sameFiles sound ?_, seen, went, good⟩
  rcases hrun : (run config store).perform s with ⟨f | report, s'⟩ <;> rw [hrun] at ends
  · exact ends.error f rfl
  · exact ends.ok report rfl

/-- A walk to a receiver that refuses an archive, which is in a scratch directory. -/
theorem run_leaves_disk_at_refusal :
    sampleReceiver.toObjectStore.LeavesDisk ∧ sampleDisk.Sound ∧
    sampleDisk.SameFiles ((run sampleConfig sampleReceiver.toObjectStore).perform
      (sampleSession.withStore 0)).2.disk ∧
    ∃ seen,
      ((run sampleConfig sampleReceiver.toObjectStore.watched).perform
        ((sampleSession.withStore 0).watched [])).2.store.2 = seen ∧
      ∀ x ∈ seen, Orderly sampleConfig sampleDisk x := by
  have undisturbed : sampleReceiver.toObjectStore.LeavesDisk :=
    sampleReceiver_leavesDisk.toObjectStore
  have sound : sampleDisk.Sound := by decide
  obtain ⟨same, seen, went, good⟩ :=
    run_leaves_disk sampleConfig undisturbed (sampleSession.withStore 0) sound
  refine ⟨undisturbed, sound, same, seen, ?_, good⟩
  rw [went]
  rfl

end Walk
end ArtifactCourier
