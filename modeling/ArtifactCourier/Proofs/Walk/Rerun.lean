/-
  ArtifactCourier.Proofs.Walk.Rerun
  ──────────────────────────────────────
  **A walk that is repeated repairs the one before it.**

  A walk may end at any point.  What it has handed over by then is a beginning of what was to
  be uploaded, so a walk that is repeated and succeeds writes all of it again: the store holds
  what it would hold if there had been no walk before.

    • `Receiver.KeepsShelf` — a store that holds what was written last at each key, also when
      an answer of it was lost,
    • `HandsWithin` — an action hands over a beginning of some uploads, however it ends,
    • `within_run` — so does a whole walk,
    • `lastWrite_or_absorb` — writes that are made again do not show,
    • `rerun_repairs` — the law.
-/
import ArtifactCourier.Proofs.Walk.Shelved
import ArtifactCourier.Proofs.Walk.Tally

namespace ArtifactCourier

open Store FileSystem Compression

variable {σ τ υ α β : Type}

/-! ## §1. Receivers with a shelf. -/

namespace Store.Receiver

/-- **A receiver with a shelf behind it.**  What it takes is put on the shelf.  What it refuses
may have got there all the same, as when an answer is lost. -/
structure KeepsShelf (r : Receiver (σ × Shelf)) : Prop where
  ok : ∀ {o state next}, r.answer o state = (.ok (), next) → next.2 = state.2.put o
  error : ∀ {o state f next}, r.answer o state = (.error f, next) →
    next.2 = state.2 ∨ next.2 = state.2.put o

/-- A receiver that puts on a shelf just what it takes. -/
theorem keepsShelf_shelving (r : Receiver σ) : r.shelving.KeepsShelf where
  ok h := (answer_shelving_ok.1 h).2
  error h := .inl (answer_shelving_error.1 h).2

theorem KeepsShelf.shelf_of_takes {r : Receiver (σ × Shelf)} (keeps : r.KeepsShelf)
    {state last : σ × Shelf} {os : List Stored} (taken : r.Takes state os last) :
    last.2 = state.2.putAll os := by
  induction taken with
  | nil => rfl
  | cons hanswer _ ih =>
    rw [ih, keeps.ok hanswer]
    rfl

end Store.Receiver

/-! ## §2. A beginning of the uploads. -/

/-- From a disk with `P`, an action hands over a beginning of `uploads`, however it ends. -/
def HandsWithin (P : FileSystem → Prop) (w : Work σ α)
    (uploads : Option (List (String × ByteArray))) : Prop :=
  ∀ s, P s.disk → ∀ full, uploads = some full →
    ∃ made, (w.perform s).2.handovers = s.handovers ++ made ∧ made.map Stored.object <+: full

namespace HandsWithin

variable {P : FileSystem → Prop} {Q : α → FileSystem → Prop} {w : Work σ α} {f : α → Work σ β}
  {first second uploads : Option (List (String × ByteArray))}

/-- What hands over nothing. -/
theorem of_silent (h : ∀ s, (w.perform s).2.handovers = s.handovers) :
    HandsWithin P w uploads :=
  fun s _ _ _ => ⟨[], by rw [h, List.append_nil], List.nil_prefix⟩

theorem pure (a : α) : HandsWithin (σ := σ) P (pure a) uploads := of_silent fun _ => rfl

theorem log (line : Log.Line) : HandsWithin (σ := σ) P (Work.log line) uploads :=
  of_silent fun _ => Session.handovers_of_log rfl

theorem count (change : Report → Report) : HandsWithin (σ := σ) P (Work.count change) uploads :=
  of_silent fun _ => rfl

theorem onDisk (action : Disk α) : HandsWithin (σ := σ) P (Work.onDisk action) uploads := by
  apply of_silent
  intro s
  rw [Work.perform_onDisk]
  rfl

/-- **One action after the other.**  If the first succeeds it has handed over all that it was
to; if it fails the second is never begun. -/
theorem bind (hw : Hands P w first Q) (within : HandsWithin P w first)
    (hf : ∀ a, HandsWithin (Q a) (f a) second) :
    HandsWithin P (w >>= f) (andThen first second) := by
  intro s hP full hfull
  obtain ⟨before, rfl⟩ : ∃ before, first = some before := by
    cases first with
    | none => cases hfull
    | some before => exact ⟨before, rfl⟩
  obtain ⟨after, rfl⟩ : ∃ after, second = some after := by
    cases second with
    | none => cases hfull
    | some after => exact ⟨after, rfl⟩
  cases hfull
  rw [Work.perform_bind]
  rcases hrun : w.perform s with ⟨e | a, s'⟩
  · obtain ⟨made, handed, begun⟩ := within s hP before rfl
    rw [hrun] at handed
    exact ⟨made, handed, begun.trans (List.prefix_append _ _)⟩
  · obtain ⟨hQ, made, handed, all⟩ := hw s a s' hP hrun
    obtain ⟨more, handedMore, begun⟩ := hf a s' hQ after rfl
    refine ⟨made ++ more, by rw [handedMore, handed, List.append_assoc], ?_⟩
    rw [Option.some.inj all, List.map_append]
    exact (List.prefix_append_right_inj _).2 begun

/-- What hands over nothing only prepares what follows it. -/
theorem silent_bind (hw : Hands P w (some []) Q) (within : HandsWithin P w (some []))
    (hf : ∀ a, HandsWithin (Q a) (f a) second) : HandsWithin P (w >>= f) second := by
  rw [← nil_andThen second]
  exact bind hw within hf

/-- A fact that does not depend on the disk is at hand from then on. -/
theorem of_fact {φ : Prop} (h : φ → HandsWithin P w uploads) :
    HandsWithin (fun disk => φ ∧ P disk) w uploads :=
  fun s hP => h hP.1 s hP.2

/-- **Loops.** -/
theorem forM {ι : Type} {l : List ι} {g : ι → Work σ PUnit}
    {uploads : ι → Option (List (String × ByteArray))}
    (h : ∀ i ∈ l, Hands P (g i) (uploads i) fun _ => P)
    (within : ∀ i ∈ l, HandsWithin P (g i) (uploads i)) :
    HandsWithin P (l.forM g) (do
      let parts ← l.mapM uploads
      some parts.flatten) := by
  induction l with
  | nil => exact HandsWithin.pure PUnit.unit
  | cons i l ih =>
    rw [List.forM, flatten_mapM_cons]
    exact bind (h i List.mem_cons_self) (within i List.mem_cons_self) fun _ =>
      ih (fun j hj => h j (List.mem_cons_of_mem _ hj))
        fun j hj => within j (List.mem_cons_of_mem _ hj)

end HandsWithin

/-! ## §3. The steps of a walk. -/

namespace Walk

section file

variable {r : Receiver σ} (undisturbed : r.LeavesDisk) (config : Config)
  {P : FileSystem → Prop} {fs : FileSystem} {file : Path} {name : String} {n : Node}

include undisturbed in
theorem within_store {content : Option ByteArray} (key : String)
    (h : ∀ disk, P disk → (disk.bytesAt file).toOption = content) :
    HandsWithin P (r.toObjectStore.upload file key) (content.map fun bytes => [(key, bytes)]) := by
  intro s hP full hfull
  have hcontent := h s.disk hP
  rw [Receiver.perform_upload undisturbed]
  rcases hbytes : s.disk.bytesAt file with e | bytes <;> rw [hbytes] at hcontent
  · exact ⟨[], (List.append_nil _).symm, List.nil_prefix⟩
  · -- Refused or not, the file was handed over.
    subst hcontent
    cases hfull
    exact ⟨[⟨key, file, bytes⟩], Session.handovers_of_handedOver rfl, List.prefix_rfl⟩

include undisturbed in
theorem within_upload {content : Option ByteArray}
    (h : ∀ disk, P disk → (disk.bytesAt file).toOption = content) :
    HandsWithin P (upload config r.toObjectStore file name)
      (content.map fun bytes => [(destinationKey config.uploadDir name, bytes)]) := by
  unfold upload
  apply HandsWithin.silent_bind (Hands.log _) (.log _)
  intro _
  rw [← andThen_nil (content.map _)]
  apply HandsWithin.bind (hands_store undisturbed _ h) (within_store undisturbed _ h)
  intro _
  exact HandsWithin.silent_bind (Hands.log _) (.log _) fun _ => .count _

omit undisturbed in
/-- Making a scratch directory hands over nothing, whether it can be made or not. -/
theorem handovers_create (s : Session σ) :
    ((Scratch.create config).perform s).2.handovers = s.handovers := by
  unfold Scratch.create
  rw [Work.perform_bind, Work.perform_get]
  dsimp only
  rw [Work.perform_bind, Work.perform_onDisk]
  split <;> next h =>
    obtain ⟨-, rfl⟩ := Prod.mk.inj h
    rfl

/-- **Work with a scratch directory**, whether the directory can be made and taken away or not. -/
theorem within_use (sound : fs.Sound) {work : Path → Work σ Unit}
    {uploads : Option (List (String × ByteArray))}
    (h : ∀ scratch id, HandsWithin (fs.HasScratch scratch id) (work scratch) uploads) :
    HandsWithin fs.Kept (Scratch.use config work) uploads := by
  intro s kept full hfull
  unfold Scratch.use
  rw [Work.perform_bind]
  rcases hcreate : (Scratch.create config).perform s with ⟨e | scratch, s₁⟩
  · have silent := handovers_create config s
    rw [hcreate] at silent
    exact ⟨[], silent.trans (List.append_nil _).symm, List.nil_prefix⟩
  obtain ⟨-, disk, hmake, rfl⟩ := perform_create_eq_ok.1 hcreate
  obtain ⟨id, made⟩ := hasScratch_of_makeNode sound kept hmake
  obtain ⟨handed, hhanded, begun⟩ := h scratch id { s with disk := disk } made full hfull
  refine ⟨handed, ?_, begun⟩
  dsimp only
  rw [Work.perform_bind, (cleansUp_discard scratch).perform_orElseCleanUp]
  rcases hwork : (work scratch).perform { s with disk := disk } with ⟨e | _, s₂⟩ <;>
    rw [hwork] at hhanded
  · exact hhanded
  · dsimp only
    unfold Scratch.close
    rw [Work.perform_onDisk]
    exact hhanded

section regular

variable (sound : fs.Sound) (hstat : fs.stat file = .ok n) (regular : n.isFile = true)

include sound hstat regular undisturbed

theorem within_publishGzip {scratch : Path} {id : NodeId}
    (hstep : (RawText.ofString (gzipName name)).IsStep) :
    HandsWithin (fs.HasScratch scratch id) (publishGzip config r.toObjectStore file name scratch)
      ((gzipOf fs file).map fun bytes =>
        [(destinationKey config.uploadDir (gzipName name), bytes)]) := by
  unfold publishGzip
  apply HandsWithin.silent_bind (Hands.log _) (.log _)
  intro _
  apply HandsWithin.silent_bind (hands_gzipFile sound hstat regular hstep).discard
  · exact HandsWithin.silent_bind (hands_gzipFile sound hstat regular hstep) (.onDisk _) fun _ =>
      .pure _
  · intro _
    exact within_upload undisturbed config fun disk h => h.2

theorem within_publishTarGz {scratch : Path} {id : NodeId}
    (hstep : (RawText.ofString (tarGzName name)).IsStep) :
    HandsWithin (fs.HasScratch scratch id) (publishTarGz config r.toObjectStore file name scratch)
      ((tarGzOf fs file).map fun bytes =>
        [(destinationKey config.uploadDir (tarGzName name), bytes)]) := by
  unfold publishTarGz
  apply HandsWithin.silent_bind (Hands.log _) (.log _)
  intro _
  apply HandsWithin.silent_bind (hands_tarGzFile sound hstat regular hstep) (.onDisk _)
  intro _
  exact within_upload undisturbed config fun disk h => h.2

end regular

theorem within_publishPlain (undisturbed : r.LeavesDisk) (sound : fs.Sound) :
    HandsWithin fs.Kept (publishPlain config r.toObjectStore file name)
      (plainUploads fs file (destinationKey config.uploadDir name)) := by
  rw [plainUploads_eq_map]
  unfold publishPlain
  apply HandsWithin.silent_bind (Hands.count _) (.count _)
  intro _
  exact within_upload undisturbed config fun disk kept => by rw [bytesAt_kept sound kept]

theorem within_publishTar (undisturbed : r.LeavesDisk) (sound : fs.Sound)
    (hstat : fs.stat file = .ok n) (regular : n.isFile = true)
    (hstep : (RawText.ofString name).IsStep) :
    HandsWithin fs.Kept (publishTar config r.toObjectStore file name)
      (tarUploads fs file (destinationKey config.uploadDir name)) := by
  rw [tarUploads_eq_andThen]
  unfold publishTar
  apply HandsWithin.silent_bind (Hands.count _) (.count _)
  intro _
  have content : ∀ disk, fs.Kept disk → (disk.bytesAt file).toOption = (fs.bytesAt file).toOption :=
    fun disk kept => by rw [bytesAt_kept sound kept]
  apply HandsWithin.bind (hands_upload undisturbed config content)
    (within_upload undisturbed config content)
  intro _
  apply within_use config sound
  intro scratch id
  exact HandsWithin.bind (hands_publishGzip undisturbed config sound hstat regular hstep.gzipName)
    (within_publishGzip undisturbed config sound hstat regular hstep.gzipName) fun _ =>
      within_publishTarGz undisturbed config sound hstat regular hstep.tarGzName

end file

/-! ## §4. Directories, and the walk. -/

theorem within_onlyIf {P : FileSystem → Prop} (asked : Bool) {w : Work σ Unit}
    {uploads : Option (List (String × ByteArray))} (h : HandsWithin P w uploads) :
    HandsWithin P (onlyIf asked w) (if asked then uploads else some []) := by
  cases asked
  · exact .pure ()
  · exact h

theorem within_warning {P : FileSystem → Prop} {uploads : Option (List (String × ByteArray))}
    (asked : Bool) (name : String) :
    HandsWithin P (onlyIf asked (Work.log (.matchesBoth name)) : Work σ Unit) uploads := by
  cases asked
  · exact .pure ()
  · exact .log _

section walk

variable {r : Receiver σ} (undisturbed : r.LeavesDisk) (config : Config) {fs : FileSystem}
  (sound : fs.Sound)

include undisturbed sound

theorem within_publish {file : Path} {name : String} {n : Node} (hstat : fs.stat file = .ok n)
    (regular : n.isFile = true) (hstep : (RawText.ofString name).IsStep) (c : Classification) :
    HandsWithin fs.Kept (publish config r.toObjectStore file name c)
      (andThen
        (if c.tar then tarUploads fs file (destinationKey config.uploadDir name) else some [])
        (if c.plain then plainUploads fs file (destinationKey config.uploadDir name)
          else some [])) := by
  rw [publish_eq]
  apply HandsWithin.silent_bind (hands_warning _ name) (within_warning _ name)
  intro _
  exact HandsWithin.bind
    (hands_onlyIf c.tar (hands_publishTar config undisturbed sound hstat regular hstep))
    (within_onlyIf c.tar (within_publishTar config undisturbed sound hstat regular hstep)) fun _ =>
      within_onlyIf c.plain (within_publishPlain config undisturbed sound)

theorem within_visit (dir : Path) {entry : RawText} (hstep : entry.IsStep) :
    HandsWithin fs.Kept (visit config r.toObjectStore dir entry)
      (uploadsOf config fs dir entry) := by
  rw [uploadsOf_eq]
  unfold visit
  apply HandsWithin.silent_bind (Hands.count _) (.count _)
  intro _
  cases htext : entry.toString? with
  | none => exact .pure ()
  | some name =>
    dsimp only
    cases candidate : (Classification.ofName config name).isCandidate with
    | false =>
      rw [if_neg (by decide)]
      exact .pure ()
    | true =>
      rw [if_pos rfl]
      -- The look at the file tells what the disk told before the walk.
      apply HandsWithin.silent_bind
        (Hands.look fun disk kept => stat_kept sound kept (dir.join entry)) (.onDisk _)
      intro node
      apply HandsWithin.of_fact
      intro hstat
      rw [hstat]
      cases regular : node.isFile with
      | false =>
        rw [if_neg (by decide)]
        exact .log _
      | true =>
        rw [if_pos rfl, if_pos ⟨rfl, by simp [Except.toOption, regular]⟩]
        have hname : (RawText.ofString name).IsStep := by
          rwa [RawText.ofString_of_toString? htext]
        exact within_publish undisturbed config sound hstat regular hname _

theorem within_processDirectory (dir : Path) :
    HandsWithin fs.Kept (processDirectory config r.toObjectStore dir)
      (uploadsOfDirectory config fs dir) := by
  unfold processDirectory
  apply HandsWithin.silent_bind (Hands.log _) (.log _)
  intro _
  apply HandsWithin.silent_bind (Hands.count _) (.count _)
  intro _
  apply HandsWithin.silent_bind
    (Hands.look fun disk kept => readDirectory_kept sound kept dir) (.onDisk _)
  intro l
  apply HandsWithin.of_fact
  intro hread
  rw [uploadsOfDirectory_eq config hread, forM_items]
  have steps := isStep_of_readDirectory sound hread
  have visited := fun entry hentry => hands_visit undisturbed config sound dir (steps entry hentry)
  exact HandsWithin.bind (Hands.forM visited) (.forM visited fun entry hentry =>
    within_visit undisturbed config sound dir (steps entry hentry)) fun _ => .onDisk _

/-- **A walk hands over a beginning of what was to be uploaded**, however it ends. -/
theorem within_run :
    HandsWithin fs.Kept (run config r.toObjectStore) (expectedUploads config fs) := by
  unfold run expectedUploads
  apply HandsWithin.silent_bind (Hands.count _) (.count _)
  intro _
  rw [← andThen_nil (do let parts ← config.dirs.mapM _; some parts.flatten)]
  have directories := fun dir (_ : dir ∈ config.dirs) =>
    hands_processDirectory undisturbed config sound dir
  exact HandsWithin.bind (Hands.forM directories)
    (.forM directories fun dir _ => within_processDirectory undisturbed config sound dir)
    fun _ => .of_silent fun _ => rfl

end walk
end Walk

/-! ## §5. The law. -/

/-- **Writes that are made again do not show**: writes hide a beginning of themselves. -/
theorem lastWrite_or_absorb {begun full : List (String × ByteArray)} (h : begun <+: full)
    (key : String) (start : Option ByteArray) :
    (lastWrite full key).or ((lastWrite begun key).or start) = (lastWrite full key).or start := by
  obtain ⟨rest, rfl⟩ := h
  rw [lastWrite_append]
  cases lastWrite rest key with
  | some bytes => rfl
  | none => cases lastWrite begun key <;> rfl

namespace Walk

section law

variable {r : Receiver (σ × Shelf)} (undisturbed : r.LeavesDisk) (keeps : r.KeepsShelf)
  (config : Config) {fs : FileSystem} (sound : fs.Sound) {s : Session (σ × Shelf)}
  (kept : fs.Kept s.disk)

include undisturbed keeps sound kept

/-- **The shelf after a walk, however it ended**: a beginning of the uploads was put on it. -/
theorem shelf_of_run {uploads : List (String × ByteArray)}
    (expected : expectedUploads config fs = some uploads) :
    ∃ begun, begun <+: uploads ∧ ∀ key,
      ((run config r.toObjectStore).perform s).2.store.2.content? key
        = (lastWrite begun key).or (s.store.2.content? key) := by
  obtain ⟨made, handed, begun⟩ := within_run undisturbed config sound s kept uploads expected
  -- What was taken, and what was refused and got there all the same.
  suffices ∃ os, os <+: made ∧
      ((run config r.toObjectStore).perform s).2.store.2 = s.store.2.putAll os by
    obtain ⟨os, hos, hshelf⟩ := this
    exact ⟨_, (hos.map Stored.object).trans begun, fun key => by
      rw [hshelf, Shelf.content?_putAll]⟩
  obtain ⟨attempts, handovers, went⟩ :=
    follows_run undisturbed config s (s.withStore ()) (s.twin_withStore ())
  rcases went with ⟨taken, -, twin⟩ | ⟨before, o, after, state, f, -, taken, hanswer, -, hhanded⟩
  · obtain rfl : made = attempts := List.append_cancel_left
      (handed.symm.trans (twin.handovers.trans handovers))
    exact ⟨made, List.prefix_rfl, keeps.shelf_of_takes taken⟩
  · obtain rfl : made = before ++ [o] := List.append_cancel_left
      (handed.symm.trans (hhanded.trans (List.append_assoc _ _ _)))
    rcases keeps.error hanswer with hshelf | hshelf
    · exact ⟨before, List.prefix_append _ _, hshelf.trans (keeps.shelf_of_takes taken)⟩
    · refine ⟨before ++ [o], List.prefix_rfl, ?_⟩
      rw [hshelf, keeps.shelf_of_takes taken, Shelf.putAll, Shelf.putAll, List.foldl_append]
      rfl

/-- **The shelf after a walk that succeeded**: all uploads were put on it. -/
theorem shelf_of_success {report : Report} {s' : Session (σ × Shelf)}
    (h : (run config r.toObjectStore).perform s = (.ok report, s')) :
    ∃ uploads, expectedUploads config fs = some uploads ∧ ∀ key,
      s'.store.2.content? key = (lastWrite uploads key).or (s.store.2.content? key) := by
  obtain ⟨-, made, handed, expected⟩ := hands_run undisturbed config sound s report s' kept h
  refine ⟨_, expected, fun key => ?_⟩
  obtain ⟨attempts, handovers, went⟩ :=
    follows_run undisturbed config s (s.withStore ()) (s.twin_withStore ())
  rw [h] at went
  rcases went with ⟨taken, -, twin⟩ | ⟨_, _, _, _, _, _, _, _, result, _⟩
  · obtain rfl : made = attempts := List.append_cancel_left
      (handed.symm.trans (twin.handovers.trans handovers))
    rw [keeps.shelf_of_takes taken, Shelf.content?_putAll]
  · cases result

end law

/-- **A walk that is repeated repairs the one before it.**  Let a walk end however it may, and
let another one over the same disk, from the shelf that the first has left, succeed.  Then the
second would have succeeded alone.  And whatever walk succeeds alone, from a shelf like that
before the first walk, it has the same report, and leaves the same at every key. -/
theorem rerun_repairs (config : Config) {r₁ : Receiver (σ × Shelf)} {r₂ : Receiver (τ × Shelf)}
    (undisturbed₁ : r₁.LeavesDisk) (keeps₁ : r₁.KeepsShelf)
    (undisturbed₂ : r₂.LeavesDisk) (keeps₂ : r₂.KeepsShelf)
    {s : Session (σ × Shelf)} {t t' : Session (τ × Shelf)} {report : Report} (sound : s.disk.Sound)
    (sameDisk : t.disk = s.disk ∨ t.disk = ((run config r₁.toObjectStore).perform s).2.disk)
    (sameShelf : ∀ key, t.store.2.content? key
      = ((run config r₁.toObjectStore).perform s).2.store.2.content? key)
    (succeeds : (run config r₂.toObjectStore).perform t = (.ok report, t')) :
    (∃ u', (run config Receiver.acceptAll.shelving.toObjectStore).perform
        (t.withStore ((), s.store.2)) = (.ok report, u')) ∧
    ∀ {υ : Type} (r₃ : Receiver (υ × Shelf)) (u u' : Session (υ × Shelf)) (report' : Report),
      r₃.LeavesDisk → r₃.KeepsShelf → u.disk = s.disk ∨ u.disk = t.disk →
      (∀ key, u.store.2.content? key = s.store.2.content? key) →
      (run config r₃.toObjectStore).perform u = (.ok report', u') →
      report' = report ∧ ∀ key, u'.store.2.content? key = t'.store.2.content? key := by
  refine ⟨succeeds_alone undisturbed₂ config succeeds s.store.2, ?_⟩
  intro υ r₃ u u' report' undisturbed₃ keeps₃ aloneDisk aloneShelf alone
  -- The disk is as it was before the first walk, as far as a walk looks at it.
  have keptFirst : s.disk.Kept ((run config r₁.toObjectStore).perform s).2.disk := by
    obtain ⟨ends, -⟩ :=
      watches_run undisturbed₁.toObjectStore config sound s [] (Kept.refl s.disk)
    rcases hrun : (run config r₁.toObjectStore).perform s with ⟨f | given, s'⟩ <;>
      rw [hrun] at ends
    · exact ends.error f rfl
    · exact ends.ok given rfl
  have keptSecond : s.disk.Kept t.disk := by
    rcases sameDisk with same | same <;> rw [same]
    · exact Kept.refl s.disk
    · exact keptFirst
  have keptAlone : s.disk.Kept u.disk := by
    rcases aloneDisk with same | same <;> rw [same]
    · exact Kept.refl s.disk
    · exact keptSecond
  constructor
  · rw [report_of_kept config undisturbed₂.countsNothing undisturbed₂.toObjectStore sound
        keptSecond succeeds,
      report_of_kept config undisturbed₃.countsNothing undisturbed₃.toObjectStore sound
        keptAlone alone]
  · intro key
    obtain ⟨uploads, expected, second⟩ :=
      shelf_of_success undisturbed₂ keeps₂ config sound keptSecond succeeds
    obtain ⟨uploads', expected', third⟩ :=
      shelf_of_success undisturbed₃ keeps₃ config sound keptAlone alone
    obtain rfl : uploads = uploads' := Option.some.inj (expected.symm.trans expected')
    obtain ⟨begun, hbegun, first⟩ :=
      shelf_of_run undisturbed₁ keeps₁ config sound (Kept.refl s.disk) expected
    rw [third, aloneShelf, second, sameShelf, first, lastWrite_or_absorb hbegun]

/-- The session that a refused walk leaves, in front of a store that takes everything. -/
def sampleRerun : Session (Unit × Shelf) :=
  let first := ((run sampleConfig sampleReceiver.shelving.toObjectStore).perform sampleSession).2
  first.withStore ((), first.store.2)

/-- The repeated walk succeeds. -/
theorem run_sampleRerun :
    ((run sampleConfig Receiver.acceptAll.shelving.toObjectStore).perform
      sampleRerun).1 = .ok ⟨1, 6, 2, 1, 7⟩ := by
  delta sampleRerun run processDirectory takeEntry visit publish publishTar publishGzip publishTarGz
    Compression.gzipFile Compression.tarGzFile Compression.writeCompressed
    Compression.writeRemains
  dsimp only
  generalize Gzip.encodePieces = encode
  generalize Compression.memberPieces = pieces
  generalize Compression.refusal = refusal
  cbv

/-- A walk that was refused an archive, and is repeated. -/
theorem rerun_repairs_refusal :
    ((run sampleConfig sampleReceiver.shelving.toObjectStore).perform
        sampleSession).1.isOk = false ∧
    ∃ t' u', (run sampleConfig Receiver.acceptAll.shelving.toObjectStore).perform sampleRerun
        = (.ok ⟨1, 6, 2, 1, 7⟩, t') ∧
      (run sampleConfig Receiver.acceptAll.shelving.toObjectStore).perform
        (sampleSession.withStore ((), [])) = (.ok ⟨1, 6, 2, 1, 7⟩, u') ∧
      ∀ key, u'.store.2.content? key = t'.store.2.content? key := by
  have undisturbed : sampleReceiver.shelving.LeavesDisk := sampleReceiver_leavesDisk
  have accepting : Receiver.acceptAll.shelving.LeavesDisk := fun _ _ => rfl
  obtain ⟨u', alone⟩ := succeeds_alone Receiver.acceptAll_leavesDisk sampleConfig
    (Prod.ext run_sample rfl) []
  have repaired := rerun_repairs sampleConfig undisturbed (Receiver.keepsShelf_shelving _)
    accepting (Receiver.keepsShelf_shelving _) (s := sampleSession) (t := sampleRerun) (by decide)
    (.inr rfl) (fun _ => rfl) (Prod.ext run_sampleRerun rfl)
  refine ⟨run_sample_refused.1, _, u', Prod.ext run_sampleRerun rfl, alone, ?_⟩
  exact (repaired.2 Receiver.acceptAll.shelving (sampleSession.withStore ((), [])) _ _ accepting
    (Receiver.keepsShelf_shelving _) (.inl rfl) (fun _ => rfl) alone).2

end Walk
end ArtifactCourier
