/-
  ArtifactCourier.Proofs.Walk.Uploads
  ──────────────────────────────────────
  **Exactly what a successful walk uploads.**

  What is to be uploaded is told by the disk as it is before the walk, entry by entry and
  without a scratch directory (`Walk.uploadsOf`, `Walk.expectedUploads`).  A walk that
  succeeds hands over just that: `Walk.run_uploads`.

  The proof is a triple for each step of the walk.  `Hands P w uploads Q` says: from a disk
  with `P`, if `w` succeeds, then it leaves a disk with `Q` and has handed over exactly
  `uploads`.  Outside of scratch directories `P` is `Kept`, inside it is `HasScratch`.

    • `Hands.bind`, `Hands.forM` — triples are put together,
    • `hands_use` — a scratch directory leaves no trace,
    • `hands_publishTar`, `hands_visit`, `hands_run` — the triples of the walk.
-/
import ArtifactCourier.Proofs.Compression
import ArtifactCourier.Proofs.Walk.FailFast

namespace ArtifactCourier

open Store FileSystem Compression

variable {σ α β : Type}

/-- What the receiver of an object sees of it. -/
def Store.Stored.object (o : Stored) : String × ByteArray := (o.key, o.content)

/-! ## §1. What is to be uploaded. -/

namespace Walk

/-- A name starts with one of the prefixes. -/
def StartsWithOneOf (prefixes : List String) (name : String) : Prop :=
  ∃ p ∈ prefixes, p.toList <+: name.toList

instance (prefixes : List String) (name : String) : Decidable (StartsWithOneOf prefixes name) :=
  inferInstanceAs (Decidable (∃ p ∈ prefixes, _))

/-- What a file adds that is published in three forms. -/
def tarUploads (disk : FileSystem) (file : Path) (key : String) :
    Option (List (String × ByteArray)) := do
  let content ← (disk.bytesAt file).toOption
  let gzip ← gzipOf disk file
  let tarGz ← tarGzOf disk file
  some [(key, content), (key ++ ".gz", gzip), (key ++ ".tar.gz", tarGz)]

/-- What a file adds that is published as it is. -/
def plainUploads (disk : FileSystem) (file : Path) (key : String) :
    Option (List (String × ByteArray)) := do
  let content ← (disk.bytesAt file).toOption
  some [(key, content)]

/-- What an entry of a directory adds to the uploads. -/
def uploadsOf (config : Config) (disk : FileSystem) (dir : Path) (entry : RawText) :
    Option (List (String × ByteArray)) :=
  match entry.toString? with
  | none => some []
  | some name =>
    let tar := StartsWithOneOf config.tarPrefixes name
    let plain := StartsWithOneOf config.plainPrefixes name
    let file := dir.join entry
    if ¬ tar ∧ ¬ plain then some []
    else if ¬ (disk.stat file).toOption.any Node.isFile then some []
    else do
      let key := config.uploadDir ++ "/" ++ name
      let inForms ← (if tar then tarUploads disk file key else some [])
      let asIs ← (if plain then plainUploads disk file key else some [])
      some (inForms ++ asIs)

/-- An entry is taken from a directory: it is listed, its name is text that makes it a candidate,
and it leads to a regular file. -/
structure TakesFrom (config : Config) (disk : FileSystem) (dir : Path) (entry : RawText)
    (name : String) : Prop where
  listed : ∃ l, disk.readDirectory dir = .ok l ∧ entry ∈ l.names
  text : entry.toString? = some name
  candidate : (Classification.ofName config name).isCandidate = true
  regular : ∃ n, disk.stat (dir.join entry) = .ok n ∧ n.isFile = true

/-- What a directory adds to the uploads: what its entries add, in the order of the listing. -/
def uploadsOfDirectory (config : Config) (disk : FileSystem) (dir : Path) :
    Option (List (String × ByteArray)) := do
  let entries ← (disk.listDirectory dir).toOption
  let parts ← entries.mapM (uploadsOf config disk dir)
  some parts.flatten

/-- **What is to be uploaded**, in order; nothing if some of it cannot be read. -/
def expectedUploads (config : Config) (disk : FileSystem) : Option (List (String × ByteArray)) := do
  let parts ← config.dirs.mapM (uploadsOfDirectory config disk)
  some parts.flatten

end Walk

/-! ## §2. Triples. -/

/-- From a disk with `P`, an action that succeeds leaves a disk with `Q` and has handed over
exactly `uploads`. -/
def Hands (P : FileSystem → Prop) (w : Work σ α) (uploads : Option (List (String × ByteArray)))
    (Q : α → FileSystem → Prop) : Prop :=
  ∀ s a s', P s.disk → w.perform s = (.ok a, s') →
    Q a s'.disk ∧
      ∃ made, s'.handovers = s.handovers ++ made ∧ uploads = some (made.map Stored.object)

/-- Some uploads, and then others. -/
def andThen (first second : Option (List (String × ByteArray))) :
    Option (List (String × ByteArray)) := do
  let before ← first
  let after ← second
  some (before ++ after)

@[simp] theorem andThen_nil (uploads : Option (List (String × ByteArray))) :
    andThen uploads (some []) = uploads := by
  cases uploads <;> simp [andThen]

@[simp] theorem nil_andThen (uploads : Option (List (String × ByteArray))) :
    andThen (some []) uploads = uploads := by
  cases uploads <;> simp [andThen]

/-- What all rounds of a loop add is what the first adds, and then what the others do. -/
theorem flatten_mapM_cons {ι : Type} (uploads : ι → Option (List (String × ByteArray))) (i : ι)
    (l : List ι) :
    (do
      let parts ← (i :: l).mapM uploads
      some parts.flatten) = andThen (uploads i) (do
        let parts ← l.mapM uploads
        some parts.flatten) := by
  rw [List.mapM_cons]
  cases uploads i with
  | none => rfl
  | some first => cases l.mapM uploads <;> rfl

namespace Hands

variable {P : FileSystem → Prop} {Q : α → FileSystem → Prop} {R : β → FileSystem → Prop}
  {w : Work σ α} {f : α → Work σ β} {first second : Option (List (String × ByteArray))}

theorem bind (hw : Hands P w first Q) (hf : ∀ a, Hands (Q a) (f a) second R) :
    Hands P (w >>= f) (andThen first second) R := by
  intro s b s'' hP hrun
  obtain ⟨a, s', hfirst, hsecond⟩ := Work.perform_bind_eq_ok.1 hrun
  obtain ⟨hQ, before, hbefore, rfl⟩ := hw s a s' hP hfirst
  obtain ⟨hR, after, hafter, rfl⟩ := hf a s' b s'' hQ hsecond
  refine ⟨hR, before ++ after, ?_, ?_⟩
  · rw [hafter, hbefore, List.append_assoc]
  · simp [andThen]

/-- What hands over nothing only prepares what follows it. -/
theorem silent_bind (hw : Hands P w (some []) Q) (hf : ∀ a, Hands (Q a) (f a) second R) :
    Hands P (w >>= f) second R := by
  rw [← nil_andThen second]
  exact hw.bind hf

theorem pure {Q : α → FileSystem → Prop} (a : α) :
    Hands (Q a) (pure a : Work σ α) (some []) Q := by
  intro s b s' hQ hrun
  cases hrun
  exact ⟨hQ, [], (List.append_nil _).symm, rfl⟩

theorem weaken {Q' : α → FileSystem → Prop} (hw : Hands P w first Q)
    (h : ∀ a disk, Q a disk → Q' a disk) : Hands P w first Q' := by
  intro s a s' hP hrun
  obtain ⟨hQ, handed⟩ := hw s a s' hP hrun
  exact ⟨h a s'.disk hQ, handed⟩

/-- A fact that does not depend on the disk is at hand from then on. -/
theorem of_fact {φ : Prop} (h : φ → Hands P w first Q) :
    Hands (fun disk => φ ∧ P disk) w first Q :=
  fun s a s' hP hrun => h hP.1 s a s' hP.2 hrun

/-- What an action gives may be thrown away. -/
theorem discard {Q : FileSystem → Prop} (hw : Hands P w first fun _ => Q) :
    Hands P (Functor.discard w) first fun _ => Q := by
  have performed : Functor.discard w = (w >>= fun _ => Pure.pure ⟨⟩ : Work σ PUnit) := rfl
  rw [performed, ← andThen_nil first]
  exact hw.bind fun _ => Hands.pure (Q := fun _ => Q) PUnit.unit

theorem log (line : Log.Line) :
    Hands P (Work.log line : Work σ Unit) (some []) fun _ => P := by
  intro s a s' hP hrun
  cases hrun
  refine ⟨hP, [], ?_, rfl⟩
  rw [List.append_nil]
  exact Session.handovers_of_log rfl

theorem count (f : Report → Report) :
    Hands P (Work.count f : Work σ Unit) (some []) fun _ => P := by
  intro s a s' hP hrun
  cases hrun
  exact ⟨hP, [], (List.append_nil _).symm, rfl⟩

/-- An action on the disk hands over nothing. -/
theorem onDisk {action : Disk α}
    (h : ∀ disk a disk', P disk → action.perform disk = (.ok a, disk') → Q a disk') :
    Hands P (Work.onDisk action : Work σ α) (some []) Q := by
  intro s a s' hP hrun
  rw [Work.perform_onDisk] at hrun
  rcases hperform : action.perform s.disk with ⟨result, disk'⟩
  rw [hperform] at hrun
  cases hrun
  exact ⟨h _ _ _ hP hperform, [], (List.append_nil _).symm, rfl⟩

/-- What is looked up is what the disk says. -/
theorem look {p : Problem} {g : FileSystem → Except FileError α} {answer : Except FileError α}
    (h : ∀ disk, P disk → g disk = answer) :
    Hands P (Work.onDisk (Disk.look p g) : Work σ α) (some []) fun a disk =>
      answer = .ok a ∧ P disk := by
  apply onDisk
  intro disk a disk' hP hlook
  obtain ⟨hanswer, rfl⟩ := Disk.perform_look_eq_ok.1 hlook
  exact ⟨(h disk' hP).symm.trans hanswer, hP⟩

/-- **A loop hands over what its rounds hand over**, one after the other. -/
theorem forM {ι : Type} {l : List ι} {g : ι → Work σ PUnit}
    {uploads : ι → Option (List (String × ByteArray))}
    (h : ∀ i ∈ l, Hands P (g i) (uploads i) fun _ => P) :
    Hands P (l.forM g) (do
      let parts ← l.mapM uploads
      some parts.flatten) fun _ => P := by
  induction l with
  | nil => exact Hands.pure (Q := fun _ => P) PUnit.unit
  | cons i l ih =>
    rw [List.forM, flatten_mapM_cons]
    exact (h i List.mem_cons_self).bind fun _ => ih fun j hj => h j (List.mem_cons_of_mem _ hj)

end Hands

/-! ## §3. One file. -/

theorem Walk.plainUploads_eq_map (disk : FileSystem) (file : Path) (key : String) :
    plainUploads disk file key = (disk.bytesAt file).toOption.map fun bytes => [(key, bytes)] := by
  unfold plainUploads
  cases disk.bytesAt file <;> rfl

/-- The three forms of a file, one after the other. -/
theorem Walk.tarUploads_eq_andThen (disk : FileSystem) (file : Path) (dir name : String) :
    tarUploads disk file (destinationKey dir name)
      = andThen ((disk.bytesAt file).toOption.map fun bytes => [(destinationKey dir name, bytes)])
        (andThen
          ((gzipOf disk file).map fun bytes => [(destinationKey dir (gzipName name), bytes)])
          ((tarGzOf disk file).map fun bytes =>
            [(destinationKey dir (tarGzName name), bytes)])) := by
  unfold tarUploads andThen destinationKey gzipName tarGzName
  cases (disk.bytesAt file).toOption with
  | none => rfl
  | some content =>
    cases gzipOf disk file with
    | none => rfl
    | some gz =>
      cases tarGzOf disk file with
      | none => rfl
      | some tgz => simp [String.append_assoc, Defaults.gzipExtension, Defaults.tarGzExtension]

/-- An ending of a name makes no other step of a path of it. -/
theorem RawText.IsStep.append {name ending : RawText} (h : name.IsStep)
    (hending : Path.slash ∉ ending.bytes) (hplain : ∃ b ∈ ending.bytes, b ≠ Path.dot) :
    (name ++ ending).IsStep := by
  -- A byte of the ending that is no dot rules out both special names.
  obtain ⟨b, hb, hne⟩ := hplain
  have hmem : b ∈ (name ++ ending).bytes := List.mem_append_right _ hb
  refine ⟨isEntryName_iff.2 ⟨?_, ?_⟩, ?_⟩
  · intro given
    rcases given with hnil | hdot
    · rw [hnil] at hmem
      cases hmem
    · rw [hdot] at hmem
      exact hne (List.mem_singleton.1 hmem)
  · intro hdots
    rw [hdots] at hmem
    simp only [List.mem_cons, List.not_mem_nil, or_false, or_self] at hmem
    exact hne hmem
  · intro hslash
    rcases List.mem_append.1 hslash with hslash | hslash
    · exact h.2 hslash
    · exact hending hslash

/-- The gzip copy is named after the file, so it lies in the scratch directory itself. -/
theorem RawText.IsStep.gzipName {name : String} (h : (RawText.ofString name).IsStep) :
    (RawText.ofString (ArtifactCourier.gzipName name)).IsStep := by
  unfold ArtifactCourier.gzipName
  rw [RawText.ofString_append]
  exact h.append (by decide) (by decide)

theorem RawText.IsStep.tarGzName {name : String} (h : (RawText.ofString name).IsStep) :
    (RawText.ofString (ArtifactCourier.tarGzName name)).IsStep := by
  unfold ArtifactCourier.tarGzName
  rw [RawText.ofString_append]
  exact h.append (by decide) (by decide)

namespace Walk

section file

variable {r : Receiver σ} (undisturbed : r.LeavesDisk) (config : Config)
  {P : FileSystem → Prop} {fs : FileSystem} {file : Path} {name : String} {n : Node}

include undisturbed in
theorem hands_store {content : Option ByteArray} (key : String)
    (h : ∀ disk, P disk → (disk.bytesAt file).toOption = content) :
    Hands P (r.toObjectStore.upload file key) (content.map fun bytes => [(key, bytes)])
      fun _ => P := by
  intro s a s' hP hrun
  rw [Receiver.perform_upload undisturbed] at hrun
  have hcontent := h s.disk hP
  rcases hbytes : s.disk.bytesAt file with e | bytes <;> rw [hbytes] at hrun hcontent
  · cases hrun
  · -- The file was handed over, whatever the receiver said to it.
    subst hcontent
    obtain ⟨-, rfl⟩ := Prod.mk.inj hrun
    exact ⟨hP, [⟨key, file, bytes⟩], Session.handovers_of_handedOver rfl, rfl⟩

include undisturbed in
/-- **One upload** hands over what the path leads to. -/
theorem hands_upload {content : Option ByteArray}
    (h : ∀ disk, P disk → (disk.bytesAt file).toOption = content) :
    Hands P (upload config r.toObjectStore file name)
      (content.map fun bytes => [(destinationKey config.uploadDir name, bytes)]) fun _ => P := by
  unfold upload
  apply (Hands.log _).silent_bind
  intro _
  rw [← andThen_nil (content.map _)]
  apply (hands_store undisturbed _ h).bind
  intro _
  exact (Hands.log _).silent_bind fun _ => Hands.count _

/-- **A scratch directory leaves no trace.**  From a disk on which everything is kept, the work
is done beside what was kept, and everything is kept again afterwards. -/
theorem hands_use (sound : fs.Sound) {work : Path → Work σ Unit}
    {uploads : Option (List (String × ByteArray))}
    (h : ∀ scratch id, Hands (fs.HasScratch scratch id) (work scratch) uploads
      fun _ => fs.HasScratch scratch id) :
    Hands fs.Kept (Scratch.use config work) uploads fun _ => fs.Kept := by
  intro s a s' kept hrun
  unfold Scratch.use at hrun
  obtain ⟨scratch, s₁, hcreate, hrun⟩ := Work.perform_bind_eq_ok.1 hrun
  obtain ⟨_, s₂, hwork, hclose⟩ := Work.perform_bind_eq_ok.1 hrun
  obtain ⟨-, disk, hmake, rfl⟩ := perform_create_eq_ok.1 hcreate
  obtain ⟨id, made⟩ := hasScratch_of_makeNode sound kept hmake
  -- Since the run went on, the work succeeded and nothing was discarded.
  have hwork := Work.perform_orElseCleanUp_eq_ok.1 hwork
  obtain ⟨worked, handed⟩ := h scratch id _ _ _ made hwork
  obtain ⟨back, hremove, kept'⟩ := worked.removeTree sound
  obtain ⟨disk', hremove', rfl⟩ := perform_close_eq_ok.1 hclose
  rw [hremove] at hremove'
  cases hremove'
  exact ⟨kept', handed⟩

section regular

variable (sound : fs.Sound) (hstat : fs.stat file = .ok n) (regular : n.isFile = true)

include sound hstat regular

/-- Making the gzip copy hands over nothing yet. -/
theorem hands_gzipFile {scratch : Path} {id : NodeId}
    (hstep : (RawText.ofString (gzipName name)).IsStep) :
    Hands (fs.HasScratch scratch id)
      (Work.onDisk (gzipFile file (scratch.join (RawText.ofString (gzipName name)))) :
        Work σ Nat) (some [])
      fun _ disk => fs.HasScratch scratch id disk ∧
        (disk.bytesAt (scratch.join (RawText.ofString (gzipName name)))).toOption
          = gzipOf fs file := by
  apply Hands.onDisk
  intro disk k disk' h hrun
  exact gzipFile_in_scratch sound h hstep hstat regular hrun

/-- Making the archive hands over nothing yet. -/
theorem hands_tarGzFile {scratch : Path} {id : NodeId}
    (hstep : (RawText.ofString (tarGzName name)).IsStep) :
    Hands (fs.HasScratch scratch id)
      (Work.onDisk (tarGzFile file (scratch.join (RawText.ofString (tarGzName name)))) :
        Work σ Unit) (some [])
      fun _ disk => fs.HasScratch scratch id disk ∧
        (disk.bytesAt (scratch.join (RawText.ofString (tarGzName name)))).toOption
          = tarGzOf fs file := by
  apply Hands.onDisk
  intro disk _ disk' h hrun
  exact tarGzFile_in_scratch sound h hstep hstat regular hrun

include undisturbed

/-- The gzip copy. -/
theorem hands_publishGzip {scratch : Path} {id : NodeId}
    (hstep : (RawText.ofString (gzipName name)).IsStep) :
    Hands (fs.HasScratch scratch id)
      (publishGzip config r.toObjectStore file name scratch)
      ((gzipOf fs file).map fun bytes =>
        [(destinationKey config.uploadDir (gzipName name), bytes)])
      fun _ => fs.HasScratch scratch id := by
  unfold publishGzip
  apply (Hands.log _).silent_bind
  intro _
  apply (hands_gzipFile sound hstat regular hstep).discard.silent_bind
  intro _
  exact (hands_upload undisturbed config fun disk h => h.2).weaken fun _ disk h => h.1

/-- The archive. -/
theorem hands_publishTarGz {scratch : Path} {id : NodeId}
    (hstep : (RawText.ofString (tarGzName name)).IsStep) :
    Hands (fs.HasScratch scratch id)
      (publishTarGz config r.toObjectStore file name scratch)
      ((tarGzOf fs file).map fun bytes =>
        [(destinationKey config.uploadDir (tarGzName name), bytes)])
      fun _ => fs.HasScratch scratch id := by
  unfold publishTarGz
  apply (Hands.log _).silent_bind
  intro _
  apply (hands_tarGzFile sound hstat regular hstep).silent_bind
  intro _
  exact (hands_upload undisturbed config fun disk h => h.2).weaken fun _ disk h => h.1

end regular

/-- What a file adds that is published as it is. -/
theorem hands_publishPlain (undisturbed : r.LeavesDisk) (sound : fs.Sound) :
    Hands fs.Kept (publishPlain config r.toObjectStore file name)
      (plainUploads fs file (destinationKey config.uploadDir name)) fun _ => fs.Kept := by
  rw [plainUploads_eq_map]
  unfold publishPlain
  apply (Hands.count _).silent_bind
  intro _
  exact hands_upload undisturbed config fun disk kept => by rw [bytesAt_kept sound kept]

/-- What a file adds that is published in three forms. -/
theorem hands_publishTar (undisturbed : r.LeavesDisk) (sound : fs.Sound)
    (hstat : fs.stat file = .ok n) (regular : n.isFile = true)
    (hstep : (RawText.ofString name).IsStep) :
    Hands fs.Kept (publishTar config r.toObjectStore file name)
      (tarUploads fs file (destinationKey config.uploadDir name)) fun _ => fs.Kept := by
  rw [tarUploads_eq_andThen]
  unfold publishTar
  apply (Hands.count _).silent_bind
  intro _
  apply (hands_upload undisturbed config fun disk kept => by rw [bytesAt_kept sound kept]).bind
  intro _
  apply hands_use config sound
  intro scratch id
  apply (hands_publishGzip undisturbed config sound hstat regular hstep.gzipName).bind
  intro _
  exact hands_publishTarGz undisturbed config sound hstat regular hstep.tarGzName

end file

/-! ## §4. Directories, and the walk. -/

theorem hands_onlyIf {P : FileSystem → Prop} (asked : Bool) {w : Work σ Unit}
    {uploads : Option (List (String × ByteArray))} (h : Hands P w uploads fun _ => P) :
    Hands P (onlyIf asked w) (if asked then uploads else some []) fun _ => P := by
  cases asked
  · exact Hands.pure (Q := fun _ => P) ()
  · exact h

/-- The warning is logged or not; nothing is handed over either way. -/
theorem hands_warning {P : FileSystem → Prop} (asked : Bool) (name : String) :
    Hands P (onlyIf asked (Work.log (.matchesBoth name)) : Work σ Unit) (some []) fun _ => P := by
  have logged := Hands.log (σ := σ) (P := P) (.matchesBoth name)
  have h := hands_onlyIf asked logged
  rwa [ite_self] at h

theorem matchesAny_eq_decide (prefixes : List String) (name : String) :
    Classification.matchesAny prefixes name = decide (StartsWithOneOf prefixes name) := by
  apply Bool.eq_iff_iff.2
  rw [Classification.matchesAny_iff, decide_eq_true_iff]
  rfl

section walk

variable {r : Receiver σ} (undisturbed : r.LeavesDisk) (config : Config) {fs : FileSystem}
  (sound : fs.Sound)

include undisturbed sound

/-- A regular file is published in three forms, as it is, or both. -/
theorem hands_publish {file : Path} {name : String} {n : Node} (hstat : fs.stat file = .ok n)
    (regular : n.isFile = true) (hstep : (RawText.ofString name).IsStep) (c : Classification) :
    Hands fs.Kept (publish config r.toObjectStore file name c)
      (andThen
        (if c.tar then tarUploads fs file (destinationKey config.uploadDir name) else some [])
        (if c.plain then plainUploads fs file (destinationKey config.uploadDir name) else some []))
      fun _ => fs.Kept := by
  rw [publish_eq]
  apply (hands_warning _ name).silent_bind
  intro _
  apply (hands_onlyIf c.tar (hands_publishTar config undisturbed sound hstat regular hstep)).bind
  intro _
  exact hands_onlyIf c.plain (hands_publishPlain config undisturbed sound)

/-- One entry. -/
theorem hands_visit (dir : Path) {entry : RawText} (hstep : entry.IsStep) :
    Hands fs.Kept (visit config r.toObjectStore dir entry) (uploadsOf config fs dir entry)
      fun _ => fs.Kept := by
  unfold visit uploadsOf
  apply (Hands.count _).silent_bind
  intro _
  cases htext : entry.toString? with
  | none => exact Hands.pure (Q := fun _ => fs.Kept) ()
  | some name =>
    have hname : (RawText.ofString name).IsStep := by
      rwa [RawText.ofString_of_toString? htext]
    have htar : (Classification.ofName config name).tar
        = decide (StartsWithOneOf config.tarPrefixes name) := matchesAny_eq_decide _ _
    have hplain : (Classification.ofName config name).plain
        = decide (StartsWithOneOf config.plainPrefixes name) := matchesAny_eq_decide _ _
    dsimp only
    by_cases hnone : ¬ StartsWithOneOf config.tarPrefixes name ∧
        ¬ StartsWithOneOf config.plainPrefixes name
    · have passed : (Classification.ofName config name).isCandidate = false := by
        simp [Classification.isCandidate, htar, hplain, hnone]
      rw [if_pos hnone, passed, if_neg (by decide)]
      exact Hands.pure (Q := fun _ => fs.Kept) ()
    · have taken : (Classification.ofName config name).isCandidate = true := by
        simp only [Classification.isCandidate, htar, hplain, Bool.or_eq_true, decide_eq_true_eq]
        exact Decidable.or_iff_not_imp_left.2 (by simpa using hnone)
      rw [if_neg hnone, taken, if_pos rfl]
      -- The look at the file tells what the disk told before the walk.
      apply (Hands.look fun disk kept => stat_kept sound kept (dir.join entry)).silent_bind
      intro node
      apply Hands.of_fact
      intro hstat
      rw [hstat]
      cases regular : node.isFile with
      | false =>
        rw [if_neg (by decide), if_pos (by simp [Except.toOption, regular])]
        exact Hands.log _
      | true =>
        rw [if_pos rfl, if_neg (by simp [Except.toOption, regular])]
        have published := hands_publish undisturbed config sound hstat regular hname
          (Classification.ofName config name)
        simp only [htar, hplain, decide_eq_true_eq] at published
        exact published

omit undisturbed sound in
/-- The end of a listing has nothing to hand over, but it may be an error. -/
theorem hands_readEnd {P : FileSystem → Prop} (dir : Path) (ending : Except FileError Unit) :
    Hands P (readEnd dir ending : Work σ Unit) (ending.toOption.map fun _ => []) fun _ => P := by
  rcases ending with e | _
  · intro s a s' hP hrun
    cases hrun
  · exact Hands.pure (Q := fun _ => P) ()

omit undisturbed sound in
/-- A directory adds what its names add, if its listing does not break off. -/
theorem uploadsOfDirectory_eq {dir : Path} {l : Listing} (hread : fs.readDirectory dir = .ok l) :
    uploadsOfDirectory config fs dir
      = andThen (do
          let parts ← l.names.mapM (uploadsOf config fs dir)
          some parts.flatten) (l.ending.toOption.map fun _ => []) := by
  unfold uploadsOfDirectory listDirectory
  rw [hread]
  obtain ⟨names, e | _⟩ := l
  · cases names.mapM (uploadsOf config fs dir) <;> rfl
  · exact (andThen_nil _).symm

/-- One directory. -/
theorem hands_processDirectory (dir : Path) :
    Hands fs.Kept (processDirectory config r.toObjectStore dir)
      (uploadsOfDirectory config fs dir) fun _ => fs.Kept := by
  unfold processDirectory
  apply (Hands.log _).silent_bind
  intro _
  apply (Hands.count _).silent_bind
  intro _
  apply (Hands.look fun disk kept => readDirectory_kept sound kept dir).silent_bind
  intro l
  apply Hands.of_fact
  intro hread
  have steps := isStep_of_readDirectory sound hread
  rw [uploadsOfDirectory_eq config hread, forM_items]
  refine (Hands.forM fun entry hentry => ?_).bind fun _ => hands_readEnd dir _
  exact hands_visit undisturbed config sound dir (steps entry hentry)

/-- **The walk.** -/
theorem hands_run :
    Hands fs.Kept (run config r.toObjectStore) (expectedUploads config fs) fun _ => fs.Kept := by
  unfold run expectedUploads
  apply (Hands.count _).silent_bind
  intro _
  rw [← andThen_nil (do let parts ← config.dirs.mapM _; some parts.flatten)]
  apply (Hands.forM fun dir _ => hands_processDirectory undisturbed config sound dir).bind
  -- At last the counters are looked up.
  intro _ s report s' kept hrun
  cases hrun
  exact ⟨kept, [], (List.append_nil _).symm, rfl⟩

end walk

/-- **What a successful walk uploads.**  If a walk to a receiver succeeds, then what it hands
over, in order, is what was to be uploaded from the disk as it was before the walk. -/
theorem run_uploads (config : Config) {r : Receiver σ} (undisturbed : r.LeavesDisk)
    {s s' : Session σ} (sound : s.disk.Sound) {report : Report}
    (h : (run config r.toObjectStore).perform s = (.ok report, s')) :
    ∃ made, s'.handovers = s.handovers ++ made ∧
      expectedUploads config s.disk = some (made.map Stored.object) :=
  (hands_run undisturbed config sound s report s' (Kept.refl s.disk) h).2

/-- The member in which a file of the sample disk is archived. -/
def sampleMember (name : String) (data : ByteArray) : Tar.Member :=
  ⟨⟨(RawText.ofString name).bytes, 0o100644, 0, 0, data.size, 0, .file, none⟩, data⟩

/-- What is to be uploaded from the sample disk, in the order of its entries: nothing for a directory,
a name that is no text and a name that no prefix fits. -/
def sampleUploads : List (String × ByteArray) :=
  [("v1/b.wasm", "bb".toUTF8),
    ("v1/a.wasm", "a".toUTF8),
    ("v1/a.wasm.gz", Gzip.encode "a".toUTF8),
    ("v1/a.wasm.tar.gz", Gzip.encode (Tar.archive [sampleMember "a.wasm" "a".toUTF8])),
    ("v1/a.json", "bb".toUTF8),
    ("v1/a.json.gz", Gzip.encode "bb".toUTF8),
    ("v1/a.json.tar.gz", Gzip.encode (Tar.archive [sampleMember "a.json" "bb".toUTF8]))]

theorem expectedUploads_sample : expectedUploads sampleConfig sampleDisk = some sampleUploads := by
  delta expectedUploads uploadsOfDirectory uploadsOf tarUploads Compression.gzipOf
    Compression.tarGzOf sampleUploads
  dsimp only
  -- The compressed forms are the same on both sides, whatever they are.
  generalize Gzip.encode = encode
  generalize Tar.archive = archive
  cbv

/-- A walk that publishes a plain candidate and two tar candidates. -/
theorem run_uploads_in_three_forms :
    sampleDisk.Sound ∧
    ∃ made,
      ((run sampleConfig Receiver.acceptAll.toObjectStore).perform
          (sampleSession.withStore ())).2.handovers = made ∧
      made.map Stored.object = sampleUploads := by
  have sound : sampleDisk.Sound := by decide
  obtain ⟨made, handed, expected⟩ := run_uploads sampleConfig Receiver.acceptAll_leavesDisk
    (s := sampleSession.withStore ()) sound (Prod.ext run_sample rfl)
  exact ⟨sound, made, handed, Option.some.inj (expected.symm.trans expectedUploads_sample)⟩

end Walk

end ArtifactCourier
