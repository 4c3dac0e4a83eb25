/-
  ArtifactCourier.Proofs.Walk.Tally
  ──────────────────────────────────────
  **What a successful walk counts.**

  Every step of a walk adds to the counters, and what it adds does not depend on what they
  were.  What a walk that succeeds adds is told by the disk as it is before the walk.

    • `Report` under `+` is a commutative monoid,
    • `Walk.tallyOf`, `Walk.expectedReport` — what an entry adds, and what all of them add,
    • `Adds` — an action that succeeds adds something to the counters,
    • `run_report` — the report of a successful walk.
-/
import ArtifactCourier.Proofs.Walk.LeavesDisk

namespace ArtifactCourier

open Store FileSystem

variable {σ α β : Type}

/-! ## §1. Reports that are added. -/

namespace Report

instance : Add Report where
  add r t := ⟨r.directories + t.directories, r.entries + t.entries,
    r.tarCandidates + t.tarCandidates, r.plainCandidates + t.plainCandidates,
    r.uploads + t.uploads⟩

instance : Zero Report := ⟨.zero⟩

theorem add_def (r t : Report) :
    r + t = ⟨r.directories + t.directories, r.entries + t.entries,
      r.tarCandidates + t.tarCandidates, r.plainCandidates + t.plainCandidates,
      r.uploads + t.uploads⟩ := rfl

theorem zero_def : (0 : Report) = ⟨0, 0, 0, 0, 0⟩ := rfl

instance : AddCommMonoid Report where
  add_assoc r t u := by simp [add_def, Nat.add_assoc]
  zero_add r := by simp [add_def, zero_def]
  add_zero r := by simp [add_def, zero_def]
  add_comm r t := by simp [add_def, Nat.add_comm]
  nsmul := nsmulRec

end Report

/-! ## §2. What is to be counted. -/

namespace Walk

/-- What a file adds that is published as its classification asks. -/
def tallyOfFile (c : Classification) : Report :=
  (if c.tar then ⟨0, 0, 1, 0, 3⟩ else 0) + if c.plain then ⟨0, 0, 0, 1, 1⟩ else 0

/-- What an entry of a directory adds to the counters. -/
def tallyOf (config : Config) (disk : FileSystem) (dir : Path) (entry : RawText) : Report :=
  ⟨0, 1, 0, 0, 0⟩ +
    match entry.toString? with
    | none => 0
    | some name =>
      let c := Classification.ofName config name
      if c.isCandidate ∧ (disk.stat (dir.join entry)).toOption.any Node.isFile then tallyOfFile c
      else 0

/-- What a directory adds to the counters. -/
def tallyOfDirectory (config : Config) (disk : FileSystem) (dir : Path) : Report :=
  ⟨1, 0, 0, 0, 0⟩ +
    (((disk.listDirectory dir).toOption.getD []).map (tallyOf config disk dir)).sum

/-- **What is to be counted.** -/
def expectedReport (config : Config) (disk : FileSystem) : Report :=
  (config.dirs.map (tallyOfDirectory config disk)).sum

end Walk

/-! ## §3. Adding to the counters. -/

/-- An action that succeeds from a disk with `P` adds `t` to the counters. -/
def Adds (P : FileSystem → Prop) (w : Work σ α) (t : Report) : Prop :=
  ∀ s a s', P s.disk → w.perform s = (.ok a, s') → s'.report = s.report + t

/-- The store leaves the counters alone. -/
def ObjectStore.CountsNothing (store : ObjectStore σ) : Prop :=
  ∀ file key s, ((store.upload file key).perform s).2.report = s.report

theorem Store.Receiver.LeavesDisk.countsNothing {r : Receiver σ} (h : r.LeavesDisk) :
    r.toObjectStore.CountsNothing := by
  intro file key s
  rw [Receiver.perform_upload h]
  cases s.disk.bytesAt file <;> rfl

namespace Adds

variable {P : FileSystem → Prop} {w : Work σ α} {t u : Report}

theorem pure (a : α) : Adds (σ := σ) P (pure a) 0 := by
  intro s b s' _ h
  cases h
  exact (add_zero _).symm

/-- One action after the other adds what both add.  The second may rely on what the first
leaves on the disk. -/
theorem bind {f : α → Work σ β} {Q : α → FileSystem → Prop} (first : Adds P w t)
    (left : ∀ s a s', P s.disk → w.perform s = (.ok a, s') → Q a s'.disk)
    (second : ∀ a, Adds (Q a) (f a) u) : Adds P (w >>= f) (t + u) := by
  intro s b s'' hP h
  obtain ⟨a, s', hw, hf⟩ := Work.perform_bind_eq_ok.1 h
  rw [second a s' b s'' (left s a s' hP hw) hf, first s a s' hP hw, add_assoc]

/-- Where nothing is known of the disk. -/
theorem seq {f : α → Work σ β} (first : Adds (fun _ => True) w t)
    (second : ∀ a, Adds (fun _ => True) (f a) u) : Adds (fun _ => True) (w >>= f) (t + u) :=
  first.bind (fun _ _ _ _ _ => trivial) second

/-- What adds nothing only prepares what follows it. -/
theorem silent_seq {f : α → Work σ β} (first : Adds (fun _ => True) w 0)
    (second : ∀ a, Adds (fun _ => True) (f a) u) : Adds (fun _ => True) (w >>= f) u := by
  rw [← zero_add u]
  exact first.seq second

theorem log (line : Log.Line) : Adds (σ := σ) P (Work.log line) 0 := by
  intro s a s' _ h
  cases h
  exact (add_zero _).symm

theorem onDisk (action : Disk α) : Adds (σ := σ) P (Work.onDisk action) 0 := by
  intro s a s' _ h
  rw [Work.perform_onDisk] at h
  obtain ⟨-, rfl⟩ := Prod.mk.inj h
  exact (add_zero _).symm

theorem count {change : Report → Report} (h : ∀ r, change r = r + t) :
    Adds (σ := σ) P (Work.count change) t := by
  intro s a s' _ hrun
  cases hrun
  exact h s.report

/-- **A loop adds what its rounds add**, if they leave of the disk what they rely on. -/
theorem forM {ι : Type} {l : List ι} {f : ι → Work σ PUnit} {t : ι → Report}
    (h : ∀ i ∈ l, Adds P (f i) (t i))
    (left : ∀ i ∈ l, ∀ s a s', P s.disk → (f i).perform s = (.ok a, s') → P s'.disk) :
    Adds P (l.forM f) (l.map t).sum := by
  induction l with
  | nil => exact Adds.pure PUnit.unit
  | cons i l ih =>
    rw [List.forM, List.map_cons, List.sum_cons]
    refine (h i List.mem_cons_self).bind (Q := fun _ => P) (left i List.mem_cons_self) fun _ => ?_
    exact ih (fun j hj => h j (List.mem_cons_of_mem _ hj))
      fun j hj => left j (List.mem_cons_of_mem _ hj)

end Adds

/-! ## §4. The walk. -/

namespace Walk

variable {store : ObjectStore σ} (quiet : store.CountsNothing) (config : Config)

section file

include quiet

theorem adds_upload (file : Path) (name : String) :
    Adds (fun _ => True) (upload config store file name) ⟨0, 0, 0, 0, 1⟩ := by
  have stored : Adds (fun _ => True) (store.upload file (destinationKey config.uploadDir name)) 0 := by
    intro s a s' _ h
    rw [← congrArg (fun x => x.2.report) h, quiet, add_zero]
  unfold upload
  apply (Adds.log _).silent_seq
  intro _
  apply stored.silent_seq
  intro _
  apply (Adds.log _).silent_seq
  intro _
  exact Adds.count fun _ => rfl

theorem adds_publishGzip (file : Path) (name : String) (scratch : Path) :
    Adds (fun _ => True) (publishGzip config store file name scratch) ⟨0, 0, 0, 0, 1⟩ := by
  unfold publishGzip
  apply (Adds.log _).silent_seq
  intro _
  apply ((Adds.onDisk _).silent_seq fun _ => Adds.pure _).silent_seq
  intro _
  exact adds_upload quiet config _ _

theorem adds_publishTarGz (file : Path) (name : String) (scratch : Path) :
    Adds (fun _ => True) (publishTarGz config store file name scratch) ⟨0, 0, 0, 0, 1⟩ := by
  unfold publishTarGz
  apply (Adds.log _).silent_seq
  intro _
  apply (Adds.onDisk _).silent_seq
  intro _
  exact adds_upload quiet config _ _

omit quiet in
/-- Making and removing a scratch directory counts for nothing. -/
theorem adds_use {work : Path → Work σ Unit} {t : Report}
    (h : ∀ scratch, Adds (fun _ => True) (work scratch) t) :
    Adds (fun _ => True) (Scratch.use config work) t := by
  intro s a s' _ hrun
  unfold Scratch.use at hrun
  obtain ⟨scratch, s₁, hcreate, hrun⟩ := Work.perform_bind_eq_ok.1 hrun
  obtain ⟨_, s₂, hwork, hclose⟩ := Work.perform_bind_eq_ok.1 hrun
  obtain ⟨-, disk, -, rfl⟩ := perform_create_eq_ok.1 hcreate
  obtain ⟨disk', -, rfl⟩ := perform_close_eq_ok.1 hclose
  have worked := h scratch _ _ _ trivial (Work.perform_orElseCleanUp_eq_ok.1 hwork)
  exact worked

theorem adds_publishTar (file : Path) (name : String) :
    Adds (fun _ => True) (publishTar config store file name) ⟨0, 0, 1, 0, 3⟩ := by
  have steps : (⟨0, 0, 1, 0, 3⟩ : Report) = ⟨0, 0, 1, 0, 0⟩ + (⟨0, 0, 0, 0, 1⟩ +
      (⟨0, 0, 0, 0, 1⟩ + ⟨0, 0, 0, 0, 1⟩)) := rfl
  rw [steps]
  unfold publishTar
  refine Adds.seq (Adds.count fun _ => rfl) fun _ => ?_
  apply (adds_upload quiet config _ _).seq
  intro _
  apply adds_use
  intro scratch
  exact (adds_publishGzip quiet config _ _ _).seq fun _ => adds_publishTarGz quiet config _ _ _

theorem adds_publishPlain (file : Path) (name : String) :
    Adds (fun _ => True) (publishPlain config store file name) ⟨0, 0, 0, 1, 1⟩ := by
  have steps : (⟨0, 0, 0, 1, 1⟩ : Report) = ⟨0, 0, 0, 1, 0⟩ + ⟨0, 0, 0, 0, 1⟩ := rfl
  rw [steps]
  unfold publishPlain
  exact Adds.seq (Adds.count fun _ => rfl) fun _ => adds_upload quiet config _ _

omit quiet in
theorem adds_onlyIf (asked : Bool) {w : Work σ Unit} {t : Report}
    (h : Adds (fun _ => True) w t) :
    Adds (fun _ => True) (onlyIf asked w) (if asked then t else 0) := by
  cases asked
  · exact Adds.pure ()
  · exact h

theorem adds_publish (file : Path) (name : String) (c : Classification) :
    Adds (fun _ => True) (publish config store file name c) (tallyOfFile c) := by
  have warned := adds_onlyIf (σ := σ) (c.tar && c.plain) (Adds.log (.matchesBoth name))
  rw [ite_self] at warned
  rw [publish_eq]
  apply warned.silent_seq
  intro _
  exact (adds_onlyIf c.tar (adds_publishTar quiet config _ _)).seq fun _ =>
    adds_onlyIf c.plain (adds_publishPlain quiet config _ _)

end file

section walk

variable (undisturbed : store.LeavesDisk) {fs : FileSystem} (sound : fs.Sound)

include quiet sound

theorem adds_visit (dir : Path) (entry : RawText) :
    Adds fs.Kept (visit config store dir entry) (tallyOf config fs dir entry) := by
  unfold visit tallyOf
  refine Adds.bind (Q := fun _ => fs.Kept) (Adds.count fun _ => rfl) ?_ fun _ => ?_
  · intro s a s' kept h
    cases h
    exact kept
  cases entry.toString? with
  | none => exact Adds.pure ()
  | some name =>
    dsimp only
    cases hcandidate : (Classification.ofName config name).isCandidate with
    | false =>
      rw [if_neg (by decide), if_neg (by simp)]
      exact Adds.pure ()
    | true =>
      rw [if_pos rfl, ← zero_add (ite _ _ _)]
      -- The look at the file tells what the disk told before the walk.
      apply (Adds.onDisk _).bind (Q := fun node _ => fs.stat (dir.join entry) = .ok node)
      · intro s node s' kept h
        rw [Work.perform_onDisk, Disk.perform_look] at h
        rw [← stat_kept sound kept]
        rcases hstat : s.disk.stat (dir.join entry) with e | n <;> rw [hstat] at h <;> cases h
        rfl
      intro node s a s' hstat
      rw [hstat]
      cases regular : node.isFile with
      | false =>
        rw [if_neg (by decide), if_neg (by simp [Except.toOption, regular])]
        exact Adds.log (P := fun _ => True) _ s a s' trivial
      | true =>
        rw [if_pos rfl, if_pos (by simp [Except.toOption, regular])]
        exact adds_publish quiet config _ _ _ s a s' trivial

include undisturbed

theorem adds_processDirectory {dir : Path} (hdir : dir ∈ config.dirs) :
    Adds fs.Kept (processDirectory config store dir) (tallyOfDirectory config fs dir) := by
  unfold processDirectory tallyOfDirectory
  rw [← zero_add (_ + _)]
  refine Adds.bind (Q := fun _ => fs.Kept) (Adds.log _) ?_ fun _ => ?_
  · intro s a s' kept h
    cases h
    exact kept
  refine Adds.bind (Q := fun _ => fs.Kept) (Adds.count fun _ => rfl) ?_ fun _ => ?_
  · intro s a s' kept h
    cases h
    exact kept
  rw [← zero_add (List.sum _)]
  -- The listing is the one that the disk gave before the walk.
  refine Adds.bind (Q := fun l disk => fs.readDirectory dir = .ok l ∧ fs.Kept disk)
    (Adds.onDisk _) ?_ fun l => ?_
  · intro s l s' kept h
    have looked : Watches (σ := σ) (fun _ => True) fs.Kept (list dir) (list dir)
        (fun l disk => fs.readDirectory dir = .ok l ∧ fs.Kept disk) fs.Kept :=
      Watches.look fun disk kept => readDirectory_kept sound kept dir
    exact looked.ok kept h
  intro s a s' hP hrun
  rw [forM_items] at hrun
  obtain ⟨_, s₁, hvisits, hend⟩ := Work.perform_bind_eq_ok.1 hrun
  obtain ⟨ending, rfl⟩ := perform_readEnd_eq_ok.1 hend
  have hlist : fs.listDirectory dir = .ok l.names := by
    rw [listDirectory_eq_ok, hP.1, ← ending]
  rw [hlist]
  have rounds : Adds fs.Kept (l.names.forM (visit config store dir))
      (l.names.map (tallyOf config fs dir)).sum := by
    apply Adds.forM fun entry _ => adds_visit quiet config sound dir entry
    intro entry hentry s a s' kept h
    exact (watches_visit undisturbed config sound hdir hP.1 hentry).ok kept h
  exact rounds s _ s' hP.2 hvisits

end walk

/-- The report of a successful walk is what was to be counted on a disk of which everything is
kept. -/
theorem report_of_kept (config : Config) (quiet : store.CountsNothing)
    (undisturbed : store.LeavesDisk) {fs : FileSystem} (sound : fs.Sound) {s s' : Session σ}
    (kept : fs.Kept s.disk) {report : Report} (h : (run config store).perform s = (.ok report, s')) :
    report = expectedReport config fs := by
  unfold run at h
  obtain ⟨_, s₁, hcount, h⟩ := Work.perform_bind_eq_ok.1 h
  cases hcount
  obtain ⟨_, s₂, hwalk, h⟩ := Work.perform_bind_eq_ok.1 h
  cases h
  have rounds : Adds fs.Kept (config.dirs.forM (processDirectory config store))
      (config.dirs.map (tallyOfDirectory config fs)).sum := by
    apply Adds.forM fun dir hdir => adds_processDirectory quiet config undisturbed sound hdir
    intro dir hdir s a s' kept h
    exact (watches_processDirectory undisturbed config sound hdir).ok kept h
  -- The counters start from zero.
  refine (rounds _ _ _ ?_ hwalk).trans (zero_add _)
  exact kept

/-- **The report of a successful walk** is what was to be counted on the disk as it was before. -/
theorem run_report (config : Config) (quiet : store.CountsNothing) (undisturbed : store.LeavesDisk)
    {s s' : Session σ} (sound : s.disk.Sound) {report : Report}
    (h : (run config store).perform s = (.ok report, s')) :
    report = expectedReport config s.disk :=
  report_of_kept config quiet undisturbed sound (Kept.refl s.disk) h

end Walk
end ArtifactCourier
