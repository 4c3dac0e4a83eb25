/-
  ArtifactCourier.Proofs.Walk.Counters
  ──────────────────────────────────────
  **How the counters go together, on every exit.**

  A candidate is counted before it is uploaded and an upload after it was accepted, so that the
  counters only agree between files.  Wherever a directory is left, the uploads are at most
  three behind: those of the one file at which it was left.

  What the store accepts is told by a store that counts.  `Bills w v Q E` says that `v` is `w`
  with a counting store: what `w` adds to the counters does not depend on them, it adds as many
  uploads as are accepted, and what it adds has `Q` after a success and `E` after a failure.

    • `BillsAt.bind`, `Bills.orElseCleanUp` — the ways in which actions are put together,
    • `bills_publish` — one file, whose candidates are settled or owe up to three uploads,
    • `begun`, `obtained` — the entries that are taken before a directory is left,
    • `bills_visits` — the entries of a directory, by induction,
    • `run_counters` — the law.
-/
import ArtifactCourier.Proofs.Walk.Tally

namespace ArtifactCourier

open Store FileSystem

variable {σ α β : Type}

/-! ## §1. Stores that are counted. -/

namespace Session

/-- The same session with other counters. -/
def withReport (s : Session σ) (r : Report) : Session σ := { s with report := r }

/-- The same session in front of a store that has accepted `n` uploads. -/
def counting (s : Session σ) (n : Nat) : Session (σ × Nat) := s.withStore (s.store, n)

end Session

namespace ObjectStore

/-- **The same store, counting**: it keeps the number of uploads that were accepted. -/
def counting (store : ObjectStore σ) : ObjectStore (σ × Nat) where
  upload file key := ExceptT.mk fun s =>
    let (result, after) := (store.upload file key).perform (s.withStore s.store.1)
    (result, after.counting (s.store.2 + if result.isOk then 1 else 0))

/-- The store neither looks at the counters of a walk nor changes them. -/
def IgnoresReport (store : ObjectStore σ) : Prop :=
  ∀ file key s r, (store.upload file key).perform (s.withReport r) =
    (((store.upload file key).perform s).1, ((store.upload file key).perform s).2.withReport r)

end ObjectStore

/-- What handing a file over comes to, whatever becomes of the disk meanwhile. -/
theorem Store.Receiver.perform_toObjectStore (r : Receiver σ) (file : Path) (key : String)
    (s : Session σ) :
    (r.toObjectStore.upload file key).perform s =
      match s.disk.bytesAt file with
      | .error e => (.error (.ofFile e), s)
      | .ok content =>
        ((r.receive key file content s.store).1, { s with
          events := s.events.push (.handedOver key file content)
          disk := r.meanwhile key s.disk
          store := (r.receive key file content s.store).2 }) := by
  obtain ⟨receive, meanwhile⟩ := r
  unfold Receiver.toObjectStore
  rw [Work.perform_bind, Work.perform_get]
  dsimp only
  cases s.disk.bytesAt file with
  | error e => rfl
  | ok content =>
    dsimp only
    rw [Work.perform_bind, Work.perform_emit]
    dsimp only
    rw [Work.perform_bind, Work.perform_step]
    dsimp only
    rcases receive key file content s.store with ⟨_ | _, store⟩ <;> rfl

theorem Store.Receiver.ignoresReport (r : Receiver σ) : r.toObjectStore.IgnoresReport := by
  intro file key s report
  rw [Receiver.perform_toObjectStore, Receiver.perform_toObjectStore]
  show (match s.disk.bytesAt file with | .error e => _ | .ok content => _) = _
  cases s.disk.bytesAt file <;> rfl

/-- A service does not see the counters: its conversations ask for the disk only. -/
theorem Store.Service.ignoresReport (service : Service σ) (bucket : String) :
    (service.toObjectStore bucket).IgnoresReport := by
  have conducted : ∀ {γ : Type} (x : Exchange γ) (s : Session σ) (r : Report),
      service.conduct x (s.withReport r)
        = ((service.conduct x s).1, (service.conduct x s).2.withReport r) := by
    intro γ x s r
    induction x generalizing s with
    | done a => rfl
    | send request next ih =>
      unfold Service.conduct
      exact ih _ { s with
        events := s.events.push (.request request)
        disk := service.meanwhile request s.store s.disk
        store := (service.answer request s.store).2 }
    | log line next ih =>
      unfold Service.conduct
      exact ih { s with events := s.events.push (.log line) }
    | _ => rename_i ih; exact ih _ s
  intro file key s r
  rw [Service.perform_toObjectStore, Service.perform_toObjectStore]
  exact conducted _ { s with events := s.events.push (.uploading key file) } r

/-! ## §2. Bills. -/

/-- **What an action adds to the counters**, whatever they are: as many uploads as the counting
store accepts meanwhile. -/
structure Billed (w : Work σ α) (v : Work (σ × Nat) α) (s : Session σ) (added : Report) : Prop where
  report : ∀ r, w.perform (s.withReport r)
    = ((w.perform s).1, (w.perform s).2.withReport (r + added))
  accepted : ∀ n, v.perform (s.counting n)
    = ((w.perform s).1, (w.perform s).2.counting (n + added.uploads))

/-- What was added has `Q` after a success and `E` after a failure. -/
def Settled (Q E : Report → Prop) (result : Except Failure α) (added : Report) : Prop :=
  match result with
  | .ok _ => Q added
  | .error _ => E added

/-- **An action adds something to the counters on every exit**, in one session. -/
def BillsAt (w : Work σ α) (v : Work (σ × Nat) α) (Q E : Report → Prop) (s : Session σ) : Prop :=
  ∃ added, Billed w v s added ∧ Settled Q E (w.perform s).1 added

/-- The same in every session. -/
def Bills (w : Work σ α) (v : Work (σ × Nat) α) (Q E : Report → Prop) : Prop :=
  ∀ s, BillsAt w v Q E s

namespace Billed

variable {w : Work σ α} {v : Work (σ × Nat) α} {s s' : Session σ} {added more : Report}

/-- A failure of the first action is the bill of both. -/
theorem bind_error {f : α → Work σ β} {g : α → Work (σ × Nat) β} {e : Failure}
    (h : Billed w v s added) (hw : w.perform s = (.error e, s')) :
    Billed (w >>= f) (v >>= g) s added := by
  refine ⟨fun r => ?_, fun n => ?_⟩
  · rw [Work.perform_bind, Work.perform_bind, h.report, hw]
  · rw [Work.perform_bind, Work.perform_bind, h.accepted, hw]

/-- One action after the other adds what both add. -/
theorem bind_ok {f : α → Work σ β} {g : α → Work (σ × Nat) β} {a : α} (h : Billed w v s added)
    (hw : w.perform s = (.ok a, s')) (next : Billed (f a) (g a) s' more) :
    Billed (w >>= f) (v >>= g) s (added + more) := by
  refine ⟨fun r => ?_, fun n => ?_⟩
  · rw [Work.perform_bind, Work.perform_bind, h.report, hw]
    dsimp only
    rw [next.report, add_assoc]
  · rw [Work.perform_bind, Work.perform_bind, h.accepted, hw]
    dsimp only
    rw [next.accepted, Report.add_def, Nat.add_assoc]

/-- The counters after an action are those before it with what was added. -/
theorem report_eq (h : Billed w v s added) : (w.perform s).2.report = s.report + added :=
  congrArg (fun x => x.2.report) (h.report s.report)

end Billed

namespace BillsAt

variable {w : Work σ α} {v : Work (σ × Nat) α} {Q E Q' E' R F : Report → Prop} {s : Session σ}

theorem weaken (h : BillsAt w v Q E s) (hQ : ∀ t, Q t → Q' t) (hE : ∀ t, E t → E' t) :
    BillsAt w v Q' E' s := by
  obtain ⟨added, billed, settled⟩ := h
  refine ⟨added, billed, ?_⟩
  unfold Settled at *
  split
  · next hok =>
    rw [hok] at settled
    exact hQ added settled
  · next herror =>
    rw [herror] at settled
    exact hE added settled

/-- **Bills of sequences.**  A failure of the first action leaves its bill.  What follows a
success is billed in the session that it left, and comes on top of that bill. -/
theorem bind {f : α → Work σ β} {g : α → Work (σ × Nat) β} (first : BillsAt w v Q E s)
    (failed : ∀ e s', w.perform s = (.error e, s') → ∀ t, E t → F t)
    (went : ∀ a s', w.perform s = (.ok a, s') → ∀ t, Q t →
      BillsAt (f a) (g a) (fun t' => R (t + t')) (fun t' => F (t + t')) s') :
    BillsAt (w >>= f) (v >>= g) R F s := by
  obtain ⟨added, billed, settled⟩ := first
  cases hw : w.perform s with
  | mk result s' =>
    rw [hw] at settled
    cases result with
    | error e =>
      refine ⟨added, billed.bind_error hw, ?_⟩
      rw [Work.perform_bind, hw]
      exact failed e s' hw added settled
    | ok a =>
      obtain ⟨more, billed', settled'⟩ := went a s' hw added settled
      refine ⟨added + more, billed.bind_ok hw billed', ?_⟩
      rw [Work.perform_bind, hw]
      exact settled'

end BillsAt

namespace Bills

variable {w : Work σ α} {v : Work (σ × Nat) α} {Q E : Report → Prop}

theorem pure (a : α) : Bills (σ := σ) (pure a) (pure a) (· = 0) E :=
  fun _ => ⟨0, ⟨fun r => by rw [add_zero]; rfl, fun _ => rfl⟩, rfl⟩

theorem log (line : Log.Line) : Bills (σ := σ) (Work.log line) (Work.log line) (· = 0) E :=
  fun _ => ⟨0, ⟨fun r => by rw [add_zero]; rfl, fun _ => rfl⟩, rfl⟩

/-- The disk does not know of the counters, and stores nothing. -/
theorem onDisk (action : Disk α) :
    Bills (σ := σ) (Work.onDisk action) (Work.onDisk action) (· = 0) (· = 0) := by
  intro s
  refine ⟨0, ⟨fun r => ?_, fun n => ?_⟩, ?_⟩
  · rw [add_zero, Work.perform_onDisk, Work.perform_onDisk]
    rfl
  · rw [Work.perform_onDisk, Work.perform_onDisk]
    rfl
  · cases ((Work.onDisk action).perform s).1 <;> exact rfl

/-- Counting something that is no upload. -/
theorem count {change : Report → Report} {t : Report} (h : ∀ r, change r = r + t)
    (noUpload : t.uploads = 0) :
    Bills (σ := σ) (Work.count change) (Work.count change) (· = t) E := by
  intro s
  refine ⟨t, ⟨fun r => ?_, fun n => ?_⟩, rfl⟩
  · show (_, _) = (_, _)
    rw [← h r]
    rfl
  · rw [noUpload]
    rfl

theorem weaken {Q' E' : Report → Prop} (h : Bills w v Q E) (hQ : ∀ t, Q t → Q' t)
    (hE : ∀ t, E t → E' t) : Bills w v Q' E' :=
  fun s => (h s).weaken hQ hE

/-- Where the second action does not depend on the session that the first one left. -/
theorem bind {f : α → Work σ β} {g : α → Work (σ × Nat) β} {Q' E' R F : Report → Prop}
    (first : Bills w v Q E) (second : ∀ a, Bills (f a) (g a) Q' E')
    (ok : ∀ t t', Q t → Q' t' → R (t + t')) (error : ∀ t, E t → F t)
    (later : ∀ t t', Q t → E' t' → F (t + t')) : Bills (w >>= f) (v >>= g) R F := by
  intro s
  refine (first s).bind (fun _ _ _ => error) fun a s' _ t ht => ?_
  exact (second a s').weaken (fun t' => ok t t' ht) fun t' => later t t' ht

/-- What is not billed only prepares what follows it. -/
theorem silent_bind {f : α → Work σ β} {g : α → Work (σ × Nat) β} {Q' E' : Report → Prop}
    (first : Bills w v (· = 0) (· = 0)) (second : ∀ a, Bills (f a) (g a) Q' E') (nothing : E' 0) :
    Bills (w >>= f) (v >>= g) Q' E' := by
  refine first.bind second ?_ ?_ ?_
  · rintro t t' rfl h
    rwa [zero_add]
  · rintro t rfl
    exact nothing
  · rintro t t' rfl h
    rwa [zero_add]

/-- What is not billed changes no bill that is there. -/
theorem bind_silent {f : α → Work σ β} {g : α → Work (σ × Nat) β} (first : Bills w v Q E)
    (second : ∀ a, Bills (f a) (g a) (· = 0) (· = 0)) (left : ∀ t, Q t → E t) :
    Bills (w >>= f) (v >>= g) Q E := by
  refine first.bind second ?_ (fun _ h => h) ?_
  · rintro t t' h rfl
    rwa [add_zero]
  · rintro t t' h rfl
    rw [add_zero]
    exact left t h

/-- What is counted first is on every bill of what follows. -/
theorem count_bind {change : Report → Report} {t : Report} {R F : Report → Prop}
    (h : ∀ r, change r = r + t) (noUpload : t.uploads = 0) (ok : ∀ t', Q t' → R (t + t'))
    (later : ∀ t', E t' → F (t + t')) (second : Bills w v Q E) :
    Bills (Work.count change >>= fun _ => w) (Work.count change >>= fun _ => v) R F := by
  have counted : Bills (σ := σ) (Work.count change) (Work.count change) (· = t) (fun _ => False) :=
    count h noUpload
  refine counted.bind (fun _ => second) ?_ (fun _ never => never.elim) ?_
  · rintro t t' rfl h
    exact ok t' h
  · rintro t t' rfl h
    exact later t' h

/-- A choice that looks at the disk looks at no counter. -/
theorem get_bind {f : Session σ → Work σ α} {g : Session (σ × Nat) → Work (σ × Nat) α}
    (same : ∀ (s : Session σ) r, f (s.withReport r) = f s)
    (twin : ∀ (s : Session σ) n, g (s.counting n) = g (s.counting 0))
    (h : ∀ s, Bills (f s) (g (s.counting 0)) Q E) :
    Bills (get >>= f) (get >>= g) Q E := by
  intro s
  obtain ⟨added, billed, settled⟩ := h s s
  refine ⟨added, ⟨fun r => ?_, fun n => ?_⟩, ?_⟩
  · rw [Work.perform_bind, Work.perform_bind, Work.perform_get, Work.perform_get]
    dsimp only
    rw [same]
    exact billed.report r
  · rw [Work.perform_bind, Work.perform_bind, Work.perform_get, Work.perform_get]
    dsimp only
    rw [twin]
    exact billed.accepted n
  · rw [Work.perform_bind, Work.perform_get]
    exact settled

/-- **Cleaning up after a failure** is not billed. -/
theorem orElseCleanUp {c : Work σ Unit} {d : Work (σ × Nat) Unit}
    {change : FileSystem → FileSystem} (h : Bills w v Q E) (hc : CleansUp c change)
    (hd : CleansUp d change) : Bills (Work.orElseCleanUp w c) (Work.orElseCleanUp v d) Q E := by
  intro s
  obtain ⟨added, billed, settled⟩ := h s
  cases hw : w.perform s with
  | mk result s' =>
    rw [hw] at settled
    refine ⟨added, ⟨fun r => ?_, fun n => ?_⟩, ?_⟩
    · rw [hc.perform_orElseCleanUp, hc.perform_orElseCleanUp, billed.report, hw]
      cases result <;> rfl
    · rw [hd.perform_orElseCleanUp, hc.perform_orElseCleanUp, billed.accepted, hw]
      cases result <;> rfl
    · rw [hc.perform_orElseCleanUp, hw]
      cases result <;> exact settled

end Bills

/-! ## §3. One file. -/

namespace Walk

variable {store : ObjectStore σ} (ignores : store.IgnoresReport) (config : Config)

/-- The bill of some uploads. -/
def Uploads (n : Nat) : Report := ⟨0, 0, 0, 0, n⟩

/-- A bill of uploads alone, at most `n`. -/
def UploadsUpTo (n : Nat) (t : Report) : Prop := ∃ m ≤ n, t = Uploads m

theorem uploads_add (m n : Nat) : Uploads m + Uploads n = Uploads (m + n) := rfl

theorem uploadsUpTo_zero (n : Nat) : UploadsUpTo n 0 := ⟨0, Nat.zero_le n, rfl⟩

/-- **The bill of a file that is published**: its candidates, and their uploads except for those
that are owed. -/
structure FileBill (owed : Nat) (t : Report) : Prop where
  directories : t.directories = 0
  entries : t.entries = 0
  tar : t.tarCandidates ≤ 1
  plain : t.plainCandidates ≤ 1
  uploads : t.uploads + owed = 3 * t.tarCandidates + t.plainCandidates

theorem fileBill_zero : FileBill 0 0 := ⟨rfl, rfl, Nat.zero_le 1, Nat.zero_le 1, rfl⟩

section file

include ignores

/-- **One upload** is counted once it was accepted. -/
theorem bills_upload (file : Path) (name : String) :
    Bills (upload config store file name) (upload config store.counting file name)
      (· = Uploads 1) (· = 0) := by
  unfold upload
  generalize destinationKey config.uploadDir name = key
  refine (Bills.log _).silent_bind (fun _ => ?_) rfl
  intro s
  have counted (n : Nat) : (store.counting.upload file key).perform (s.counting n)
      = (((store.upload file key).perform s).1, ((store.upload file key).perform s).2.counting
          (n + if ((store.upload file key).perform s).1.isOk then 1 else 0)) := rfl
  have unseen := ignores file key s
  cases hstore : (store.upload file key).perform s with
  | mk result s' =>
    rw [hstore] at unseen
    cases result with
    | error e =>
      -- Nothing is counted, and nothing was accepted.
      refine ⟨0, ⟨fun r => ?_, fun n => ?_⟩, ?_⟩
      · rw [Work.perform_bind, Work.perform_bind, unseen, hstore, add_zero]
      · rw [Work.perform_bind, Work.perform_bind, counted, hstore]
        rfl
      · rw [Work.perform_bind, hstore]
        exact rfl
    | ok _ =>
      refine ⟨Uploads 1, ⟨fun r => ?_, fun n => ?_⟩, ?_⟩
      · rw [Work.perform_bind, Work.perform_bind, unseen, hstore]
        rfl
      · rw [Work.perform_bind, Work.perform_bind, counted, hstore]
        rfl
      · rw [Work.perform_bind, hstore]
        exact rfl

theorem bills_publishGzip (file : Path) (name : String) (scratch : Path) :
    Bills (publishGzip config store file name scratch)
      (publishGzip config store.counting file name scratch) (· = Uploads 1) (· = 0) := by
  unfold publishGzip
  refine (Bills.log _).silent_bind (fun _ => ?_) rfl
  refine Bills.silent_bind ?_ (fun _ => bills_upload ignores config _ _) rfl
  exact (Bills.onDisk _).silent_bind (fun _ => Bills.pure _) rfl

theorem bills_publishTarGz (file : Path) (name : String) (scratch : Path) :
    Bills (publishTarGz config store file name scratch)
      (publishTarGz config store.counting file name scratch) (· = Uploads 1) (· = 0) := by
  unfold publishTarGz
  refine (Bills.log _).silent_bind (fun _ => ?_) rfl
  exact (Bills.onDisk _).silent_bind (fun _ => bills_upload ignores config _ _) rfl

omit ignores in
theorem bills_create :
    Bills (σ := σ) (Scratch.create config) (Scratch.create config) (· = 0) (· = 0) := by
  unfold Scratch.create
  refine Bills.get_bind (fun _ _ => rfl) (fun _ _ => rfl) fun s => ?_
  exact (Bills.onDisk _).silent_bind (fun _ => Bills.pure _) rfl

omit ignores in
/-- Making and removing a scratch directory is not billed, on any exit. -/
theorem bills_use {work : Path → Work σ Unit} {counted : Path → Work (σ × Nat) Unit}
    {Q E : Report → Prop} (h : ∀ scratch, Bills (work scratch) (counted scratch) Q E)
    (nothing : E 0) (left : ∀ t, Q t → E t) :
    Bills (Scratch.use config work) (Scratch.use config counted) Q E := by
  unfold Scratch.use
  refine (bills_create config).silent_bind (fun scratch => ?_) nothing
  refine Bills.bind_silent ?_ (fun _ => Bills.onDisk _) left
  exact (h scratch).orElseCleanUp (cleansUp_discard scratch) (cleansUp_discard scratch)

/-- Both compressed forms. -/
theorem bills_copies (file : Path) (name : String) (scratch : Path) :
    Bills (do
        publishGzip config store file name scratch
        publishTarGz config store file name scratch)
      (do
        publishGzip config store.counting file name scratch
        publishTarGz config store.counting file name scratch)
      (· = Uploads 2) (UploadsUpTo 2) := by
  refine (bills_publishGzip ignores config file name scratch).bind
    (fun _ => bills_publishTarGz ignores config file name scratch) ?_ ?_ ?_
  · rintro t t' rfl rfl
    rfl
  · rintro t rfl
    exact uploadsUpTo_zero 2
  · rintro t t' rfl rfl
    exact ⟨1, by decide, rfl⟩

/-- A tar candidate is counted first, so up to three uploads are owed for it. -/
theorem bills_publishTar (file : Path) (name : String) :
    Bills (publishTar config store file name) (publishTar config store.counting file name)
      (· = ⟨0, 0, 1, 0, 3⟩) (fun t => ∃ m ≤ 3, t = ⟨0, 0, 1, 0, m⟩) := by
  have one : ∀ r : Report, r.addTarCandidate = r + ⟨0, 0, 1, 0, 0⟩ := fun _ => rfl
  unfold publishTar
  refine Bills.count_bind (Q := (· = Uploads 3)) (E := UploadsUpTo 3) one rfl ?_ ?_ ?_
  · rintro t rfl
    rfl
  · rintro t ⟨m, hm, rfl⟩
    exact ⟨m, hm, by simp [Uploads, Report.add_def]⟩
  refine (bills_upload ignores config file name).bind
    (fun _ => bills_use config (bills_copies ignores config file name) (uploadsUpTo_zero 2) ?_)
    ?_ ?_ ?_
  · rintro t rfl
    exact ⟨2, Nat.le_refl 2, rfl⟩
  · rintro t t' rfl rfl
    rfl
  · rintro t rfl
    exact uploadsUpTo_zero 3
  · rintro t t' rfl ⟨m, hm, rfl⟩
    exact ⟨1 + m, by omega, uploads_add 1 m⟩

theorem bills_publishPlain (file : Path) (name : String) :
    Bills (publishPlain config store file name) (publishPlain config store.counting file name)
      (· = ⟨0, 0, 0, 1, 1⟩) (· = ⟨0, 0, 0, 1, 0⟩) := by
  have one : ∀ r : Report, r.addPlainCandidate = r + ⟨0, 0, 0, 1, 0⟩ := fun _ => rfl
  unfold publishPlain
  refine Bills.count_bind one rfl ?_ ?_ (bills_upload ignores config file name) <;>
    · rintro t rfl
      rfl

omit ignores in
theorem bills_onlyIf (asked : Bool) {w : Work σ Unit} {v : Work (σ × Nat) Unit} {q : Report}
    {E : Report → Prop} (h : Bills w v (· = q) E) :
    Bills (onlyIf asked w) (onlyIf asked v) (· = if asked then q else 0) E := by
  cases asked
  · exact Bills.pure ()
  · exact h

/-- **One file** owes nothing after a success and at most three uploads after a failure. -/
theorem bills_publish (file : Path) (name : String) (c : Classification) :
    Bills (publish config store file name c) (publish config store.counting file name c)
      (FileBill 0) (fun t => ∃ owed ≤ 3, FileBill owed t) := by
  have warned := bills_onlyIf (σ := σ) (E := (· = 0)) (c.tar && c.plain)
    (Bills.log (.matchesBoth name))
  rw [ite_self] at warned
  rw [publish_eq, publish_eq]
  refine warned.silent_bind (fun _ => ?_) ⟨0, by decide, fileBill_zero⟩
  refine (bills_onlyIf c.tar (bills_publishTar ignores config file name)).bind
    (fun _ => bills_onlyIf c.plain (bills_publishPlain ignores config file name)) ?_ ?_ ?_
  · rintro t t' rfl rfl
    rcases c with ⟨_ | _, _ | _⟩ <;> exact ⟨rfl, rfl, by decide, by decide, rfl⟩
  · -- The tar candidate was counted, and `m` of its uploads were accepted.
    rintro t ⟨m, hm, rfl⟩
    exact ⟨3 - m, Nat.sub_le 3 m, rfl, rfl, Nat.le_refl 1, Nat.zero_le 1, Nat.add_sub_cancel' hm⟩
  · -- All forms of the tar candidate were accepted, its plain form was not.
    rintro t t' rfl rfl
    rcases c with ⟨_ | _, plain⟩
    · exact ⟨1, by decide, rfl, rfl, Nat.zero_le 1, Nat.le_refl 1, rfl⟩
    · exact ⟨1, by decide, rfl, rfl, Nat.le_refl 1, Nat.le_refl 1, rfl⟩

end file

/-! ## §4. Directories. -/

/-- **The bill of directories and entries**: at each entry at most one candidate of either kind,
and all of their uploads except for those that are owed. -/
structure Tallied (d e owed : Nat) (t : Report) : Prop where
  directories : t.directories = d
  entries : t.entries = e
  tar : t.tarCandidates ≤ e
  plain : t.plainCandidates ≤ e
  uploads : t.uploads + owed = 3 * t.tarCandidates + t.plainCandidates

theorem tallied_zero : Tallied 0 0 0 0 := ⟨rfl, rfl, Nat.le_refl 0, Nat.le_refl 0, rfl⟩

/-- A file is published at an entry. -/
theorem FileBill.tallied {owed : Nat} {t : Report} (h : FileBill owed t) :
    Tallied 0 1 owed (⟨0, 1, 0, 0, 0⟩ + t) := by
  obtain ⟨directories, entries, tar, plain, uploads⟩ := h
  rw [Report.add_def]
  constructor <;> dsimp only <;> omega

/-- **What owes nothing is added to.** -/
theorem Tallied.add {d d' e e' owed : Nat} {t t' : Report} (h : Tallied d e 0 t)
    (h' : Tallied d' e' owed t') : Tallied (d + d') (e + e') owed (t + t') := by
  obtain ⟨directories, entries, tar, plain, uploads⟩ := h
  obtain ⟨directories', entries', tar', plain', uploads'⟩ := h'
  rw [Report.add_def]
  constructor <;> dsimp only <;> omega

section begun

variable {ι : Type}

/-- The items whose rounds begin: all of them, or those up to the first whose round fails. -/
def begun (f : ι → Work σ PUnit) : List ι → Session σ → List ι
  | [], _ => []
  | i :: l, s => i ::
    match (f i).perform s with
    | (.ok _, s') => begun f l s'
    | (.error _, _) => []

theorem begun_prefix (f : ι → Work σ PUnit) (l : List ι) (s : Session σ) : begun f l s <+: l := by
  induction l generalizing s with
  | nil => exact List.prefix_rfl
  | cons i l ih =>
    unfold begun
    rw [List.prefix_cons_inj]
    split
    · exact ih _
    · exact List.nil_prefix

/-- **How far a loop comes**: all of its rounds succeed, or those in front of one that fails. -/
theorem begun_cases (f : ι → Work σ PUnit) (l : List ι) (s : Session σ) :
    (∃ s', (l.forM f).perform s = (.ok ⟨⟩, s') ∧ begun f l s = l) ∨
      ∃ before i after s₁ e s', l = before ++ i :: after ∧ begun f l s = before ++ [i] ∧
        (before.forM f).perform s = (.ok ⟨⟩, s₁) ∧ (f i).perform s₁ = (.error e, s') ∧
        (l.forM f).perform s = (.error e, s') := by
  induction l generalizing s with
  | nil => exact .inl ⟨s, rfl, rfl⟩
  | cons i l ih =>
    unfold begun
    rw [Work.perform_forM_cons]
    rcases hi : (f i).perform s with ⟨e | _, s'⟩
    · exact .inr ⟨[], i, l, s, e, s', rfl, rfl, rfl, hi, rfl⟩
    dsimp only
    obtain ⟨s'', hall, hbegun⟩ | ⟨before, j, after, s₁, e, s'', rfl, hbegun, hbefore, hj, hl⟩ := ih s'
    · exact .inl ⟨s'', hall, congrArg (i :: ·) hbegun⟩
    · refine .inr ⟨i :: before, j, after, s₁, e, s'', rfl, congrArg (i :: ·) hbegun, ?_, hj, hl⟩
      rw [Work.perform_forM_cons, hi]
      exact hbefore

end begun

/-- What is done before the first entry of a directory. -/
def opening (dir : Path) : Work σ Listing := do
  Work.log (.scanning dir)
  Work.count Report.addDirectory
  list dir

theorem processDirectory_eq (config : Config) (store : ObjectStore σ) (dir : Path) :
    processDirectory config store dir
      = opening dir >>= fun l => l.items.forM (takeEntry config store dir) := by
  unfold processDirectory opening
  simp only [bind_assoc]

/-- **The entries that are obtained** from the listing of a directory before it is left: of what the
listing gave until then, all but an error that ended it. -/
def obtained (config : Config) (store : ObjectStore σ) (dir : Path) (s : Session σ) :
    List RawText :=
  match (opening dir).perform s with
  | (.ok l, s') => (begun (takeEntry config store dir) l.items s').filterMap Except.toOption
  | (.error _, _) => []

/-- The names of a listing are obtained as long as their visits succeed. -/
theorem filterMap_begun_items (store : ObjectStore σ) (dir : Path) (l : Listing) (s : Session σ) :
    (begun (takeEntry config store dir) l.items s).filterMap Except.toOption
      = begun (visit config store dir) l.names s := by
  obtain ⟨names, ending⟩ := l
  unfold Listing.items
  dsimp only
  induction names generalizing s with
  | nil =>
    rcases ending with e | _
    · rfl
    · rfl
  | cons name names ih =>
    have taken : (takeEntry config store dir (.ok name)).perform s
        = (visit config store dir name).perform s := rfl
    rw [List.map_cons, List.cons_append, begun, begun, taken]
    rcases (visit config store dir name).perform s with ⟨e | _, s'⟩
    · rfl
    · exact congrArg (name :: ·) (ih s')

/-- **How a directory is left**, and which entries were obtained from its listing until then. -/
inductive Leaves (config : Config) (store : ObjectStore σ) (dir : Path) (s : Session σ) :
    List RawText → Except Failure Unit × Session σ → Prop
  /-- It cannot be opened. -/
  | unopened {f : Failure} {s' : Session σ} :
      (opening dir).perform s = (.error f, s') → Leaves config store dir s [] (.error f, s')
  /-- The end of its listing is read, which may be an error. -/
  | ended {l : Listing} {s₁ s' : Session σ} :
      (opening dir).perform s = (.ok l, s₁) →
      (l.names.forM (visit config store dir)).perform s₁ = (.ok ⟨⟩, s') →
      Leaves config store dir s l.names
        (l.ending.mapError fun e => (Failure.ofFile e).within (.readEntry dir), s')
  /-- The visit of an entry fails. -/
  | failed {l : Listing} {before after : List RawText} {entry : RawText} {f : Failure}
      {s₁ s₂ s' : Session σ} :
      (opening dir).perform s = (.ok l, s₁) → l.names = before ++ entry :: after →
      (before.forM (visit config store dir)).perform s₁ = (.ok ⟨⟩, s₂) →
      (visit config store dir entry).perform s₂ = (.error f, s') →
      Leaves config store dir s (before ++ [entry]) (.error f, s')

/-- **Every directory is left in one of these ways.** -/
theorem leaves_obtained (store : ObjectStore σ) (dir : Path) (s : Session σ) :
    Leaves config store dir s (obtained config store dir s)
      ((processDirectory config store dir).perform s) := by
  rw [processDirectory_eq, Work.perform_bind]
  unfold obtained
  rcases hopen : (opening dir).perform s with ⟨f | l, s₁⟩
  · exact .unopened hopen
  dsimp only
  rw [filterMap_begun_items, forM_items, Work.perform_bind]
  obtain ⟨s', hall, hbegun⟩ | ⟨before, entry, after, s₂, f, s', hnames, hbegun, hbefore, hentry, hl⟩ :=
    begun_cases (visit config store dir) l.names s₁
  · rw [hall, hbegun]
    dsimp only
    rw [perform_readEnd]
    exact .ended hopen hall
  · rw [hl, hbegun]
    exact .failed hopen hnames hbefore hentry

theorem bills_opening (dir : Path) :
    Bills (σ := σ) (opening dir) (opening dir) (· = ⟨1, 0, 0, 0, 0⟩) (· = ⟨1, 0, 0, 0, 0⟩) := by
  have one : ∀ r : Report, r.addDirectory = r + ⟨1, 0, 0, 0, 0⟩ := fun _ => rfl
  have listed : Bills (σ := σ) (list dir) (list dir) (· = 0) (· = 0) := Bills.onDisk _
  have counted : Bills (σ := σ) (do Work.count Report.addDirectory; list dir)
      (do Work.count Report.addDirectory; list dir) (· = ⟨1, 0, 0, 0, 0⟩)
      (· = ⟨1, 0, 0, 0, 0⟩) := by
    refine Bills.count_bind one rfl ?_ ?_ listed <;>
      · rintro t rfl
        rfl
  refine (Bills.log _).bind (E := fun _ => False) (fun _ => counted) ?_
    (fun _ never => never.elim) ?_ <;>
    · rintro t t' rfl rfl
      rfl

section directory

include ignores

/-- **One entry.** -/
theorem bills_visit (dir : Path) (entry : RawText) :
    Bills (visit config store dir entry) (visit config store.counting dir entry)
      (Tallied 0 1 0) (fun t => ∃ owed ≤ 3, Tallied 0 1 owed t) := by
  have passed {w : Work σ Unit} {v : Work (σ × Nat) Unit} (h : Bills w v (· = 0) (· = 0)) :
      Bills w v (FileBill 0) (fun t => ∃ owed ≤ 3, FileBill owed t) := by
    refine h.weaken ?_ ?_ <;> rintro t rfl
    · exact fileBill_zero
    · exact ⟨0, by decide, fileBill_zero⟩
  have one : ∀ r : Report, r.addEntry = r + ⟨0, 1, 0, 0, 0⟩ := fun _ => rfl
  unfold visit
  refine Bills.count_bind one rfl (fun _ (h : FileBill 0 _) => h.tallied)
    (fun t (h : ∃ owed ≤ 3, FileBill owed t) => ?_) ?_
  · obtain ⟨owed, atMost, h⟩ := h
    exact ⟨owed, atMost, h.tallied⟩
  split
  · exact passed (Bills.pure ())
  · next name _ =>
    dsimp only
    split
    · refine Bills.silent_bind (Bills.onDisk _) (fun node => ?_) ⟨0, by decide, fileBill_zero⟩
      split
      · exact bills_publish ignores config _ _ _
      · exact passed (Bills.log _)
    · exact passed (Bills.pure ())

/-- **The entries of a directory**: what is owed is owed at the entry whose visit failed, and
the visits before it owe nothing. -/
theorem bills_visits (dir : Path) (entries : List RawText) (s : Session σ) :
    BillsAt (entries.forM (visit config store dir)) (entries.forM (visit config store.counting dir))
      (Tallied 0 (begun (visit config store dir) entries s).length 0)
      (fun t => ∃ owed ≤ 3,
        Tallied 0 (begun (visit config store dir) entries s).length owed t) s := by
  induction entries generalizing s with
  | nil => exact ⟨0, ⟨fun r => by rw [add_zero]; rfl, fun _ => rfl⟩, tallied_zero⟩
  | cons entry entries ih =>
    rw [List.forM, List.forM]
    unfold begun
    refine (bills_visit ignores config dir entry s).bind ?failed ?went
    case failed =>
      intro e s' hvisit t owing
      rw [hvisit]
      exact owing
    case went =>
      intro _ s' hvisit t nothing
      rw [hvisit]
      dsimp only
      rw [List.length_cons, Nat.add_comm]
      refine (ih s').weaken (fun t' h => nothing.add h) ?_
      rintro t' ⟨owed, atMost, h⟩
      exact ⟨owed, atMost, nothing.add h⟩

/-- **A directory.** -/
theorem bills_processDirectory (dir : Path) (s : Session σ) :
    BillsAt (processDirectory config store dir) (processDirectory config store.counting dir)
      (Tallied 1 (obtained config store dir s).length 0)
      (fun t => ∃ owed ≤ 3, Tallied 1 (obtained config store dir s).length owed t) s := by
  have one : Tallied 1 0 0 ⟨1, 0, 0, 0, 0⟩ := ⟨rfl, rfl, Nat.le_refl 0, Nat.le_refl 0, rfl⟩
  rw [processDirectory_eq, processDirectory_eq]
  unfold obtained
  refine (bills_opening dir s).bind ?failed ?went
  case failed =>
    rintro e s' hopen t rfl
    rw [hopen]
    exact ⟨0, Nat.zero_le 3, one⟩
  case went =>
    rintro l s' hopen t rfl
    rw [hopen]
    dsimp only
    rw [filterMap_begun_items, forM_items, forM_items]
    refine (bills_visits ignores config dir l.names s').bind ?_ ?_
    · rintro _ _ _ t' ⟨owed, atMost, h⟩
      refine ⟨owed, atMost, ?_⟩
      rw [← Nat.zero_add (List.length _)]
      exact one.add h
    · -- The end of the listing adds nothing, whatever it is.
      intro _ s'' _ t' h
      have tallied := one.add h
      rw [Nat.zero_add] at tallied
      refine (Bills.onDisk _ s'').weaken ?_ ?_ <;> rintro t'' rfl
      · rwa [add_zero]
      · rw [add_zero]
        exact ⟨0, Nat.zero_le 3, tallied⟩

/-- **All directories** owe nothing once they are taken to the end. -/
theorem bills_directories (dirs : List Path) :
    Bills (dirs.forM (processDirectory config store))
      (dirs.forM (processDirectory config store.counting))
      (fun t => ∃ entries, Tallied dirs.length entries 0 t) (fun _ => True) := by
  induction dirs with
  | nil =>
    refine (Bills.pure (E := fun _ => True) PUnit.unit).weaken ?_ fun _ h => h
    rintro t rfl
    exact ⟨0, tallied_zero⟩
  | cons dir dirs ih =>
    have first : Bills (processDirectory config store dir)
        (processDirectory config store.counting dir) (fun t => ∃ entries, Tallied 1 entries 0 t)
        (fun _ => True) := by
      intro s
      exact (bills_processDirectory ignores config dir s).weaken (fun t h => ⟨_, h⟩)
        fun _ _ => trivial
    rw [List.forM, List.forM]
    refine first.bind (fun _ => ih) ?_ (fun _ _ => trivial) fun _ _ _ _ => trivial
    rintro t t' ⟨entries, h⟩ ⟨entries', h'⟩
    rw [List.length_cons, Nat.add_comm]
    exact ⟨_, h.add h'⟩

end directory

/-! ## §5. The law. -/

/-- **How the counters go together.**  Whatever the counters are before a directory and wherever
it is left, the same is added to them: the directory, the entries that were obtained from its
listing, whether that broke off behind them or not, at each of them at most one candidate of
either kind, and the uploads that the store accepted.  The latter are those that belong to the
candidates, of which at most three are missing, and none after a success.  So the report of a
walk that succeeds tells the configured directories, and the uploads that belong to its
candidates. -/
theorem run_counters (ignores : store.IgnoresReport) (config : Config) :
    (∀ dir s, ∃ added,
      Billed (processDirectory config store dir) (processDirectory config store.counting dir) s
        added ∧
      added.directories = 1 ∧
      Leaves config store dir s (obtained config store dir s)
        ((processDirectory config store dir).perform s) ∧
      added.entries = (obtained config store dir s).length ∧
      added.tarCandidates ≤ added.entries ∧
      added.plainCandidates ≤ added.entries ∧
      3 * added.tarCandidates + added.plainCandidates ≤ added.uploads + 3 ∧
      added.uploads ≤ 3 * added.tarCandidates + added.plainCandidates ∧
      (((processDirectory config store dir).perform s).1.isOk →
        added.uploads = 3 * added.tarCandidates + added.plainCandidates)) ∧
    ∀ s report s', (run config store).perform s = (.ok report, s') →
      report.directories = config.dirs.length ∧
      report.uploads = 3 * report.tarCandidates + report.plainCandidates := by
  constructor
  · intro dir s
    obtain ⟨added, billed, settled⟩ := bills_processDirectory ignores config dir s
    refine ⟨added, billed, ?_⟩
    have left := leaves_obtained config store dir s
    unfold Settled at settled
    split at settled
    · obtain ⟨directories, entries, tar, plain, uploads⟩ := settled
      rw [entries]
      exact ⟨directories, left, rfl, tar, plain, by omega, by omega, fun _ => by omega⟩
    · next herror =>
      obtain ⟨owed, atMost, directories, entries, tar, plain, uploads⟩ := settled
      rw [herror, entries]
      exact ⟨directories, left, rfl, tar, plain, by omega, by omega, fun never => nomatch never⟩
  · intro s report s' h
    unfold run at h
    obtain ⟨_, s₁, hcount, h⟩ := Work.perform_bind_eq_ok.1 h
    cases hcount
    obtain ⟨_, s₂, hwalk, h⟩ := Work.perform_bind_eq_ok.1 h
    cases h
    obtain ⟨added, billed, settled⟩ :=
      bills_directories ignores config config.dirs (s.withReport .zero)
    -- The counters start from zero.
    have told := billed.report_eq
    rw [show (s.withReport .zero).report = 0 from rfl, zero_add] at told
    have walked : (config.dirs.forM (processDirectory config store)).perform (s.withReport .zero)
        = (.ok PUnit.unit, s') := hwalk
    rw [walked] at told settled
    obtain ⟨entries, tallied⟩ := settled
    rw [told]
    exact ⟨tallied.directories, tallied.uploads⟩

/-- What the directory of the sample disk adds to the counters before the archive of `a.wasm` is
refused. -/
theorem report_sample_refused :
    ((processDirectory sampleConfig sampleReceiver.toObjectStore (Path.ofString "d")).perform
      (sampleSession.withStore 0)).2.report = ⟨1, 3, 1, 1, 3⟩ := by
  delta processDirectory takeEntry visit publish publishTar publishGzip publishTarGz
    Compression.gzipFile Compression.tarGzFile Compression.writeCompressed
    Compression.writeRemains
  dsimp only
  generalize Gzip.encodePieces = encode
  generalize Compression.memberPieces = pieces
  generalize Compression.refusal = refusal
  cbv

/-- The sample disk, with a listing that breaks off behind the third entry of the directory. -/
def brokenDisk : FileSystem :=
  { sampleDisk with breaks := fun id => if id = 1 then some (3, .inputOutput) else none }

/-- What its directory adds to the counters before the listing breaks off, which is an error. -/
theorem report_brokenDisk :
    ((processDirectory sampleConfig Receiver.acceptAll.toObjectStore (Path.ofString "d")).perform
      (Session.start brokenDisk () sampleSession.suffix)).1
        = .error ((Failure.ofFile .inputOutput).within (.readEntry (Path.ofString "d"))) ∧
    ((processDirectory sampleConfig Receiver.acceptAll.toObjectStore (Path.ofString "d")).perform
      (Session.start brokenDisk () sampleSession.suffix)).2.report = ⟨1, 3, 1, 1, 4⟩ := by
  delta processDirectory takeEntry visit publish publishTar publishGzip publishTarGz
    Compression.gzipFile Compression.tarGzFile Compression.writeCompressed
    Compression.writeRemains
  dsimp only
  generalize Gzip.encodePieces = encode
  generalize Compression.memberPieces = pieces
  generalize Compression.refusal = refusal
  cbv

/-- A walk that is refused the archive of its third entry, with one upload owed; a directory that is
left behind its third entry because its listing breaks off, with nothing owed; and a walk that
succeeds. -/
theorem run_counters_at_refusal :
    sampleReceiver.toObjectStore.IgnoresReport ∧
    (∃ added,
      Billed (processDirectory sampleConfig sampleReceiver.toObjectStore (Path.ofString "d"))
        (processDirectory sampleConfig sampleReceiver.toObjectStore.counting (Path.ofString "d"))
        (sampleSession.withStore 0) added ∧
      added = ⟨1, 3, 1, 1, 3⟩ ∧
      (obtained sampleConfig sampleReceiver.toObjectStore (Path.ofString "d")
        (sampleSession.withStore 0)).length = 3 ∧
      3 * added.tarCandidates + added.plainCandidates ≤ added.uploads + 3) ∧
    (∃ added,
      Billed (processDirectory sampleConfig Receiver.acceptAll.toObjectStore (Path.ofString "d"))
        (processDirectory sampleConfig Receiver.acceptAll.toObjectStore.counting
          (Path.ofString "d"))
        (Session.start brokenDisk () sampleSession.suffix) added ∧
      ((processDirectory sampleConfig Receiver.acceptAll.toObjectStore (Path.ofString "d")).perform
        (Session.start brokenDisk () sampleSession.suffix)).1
          = .error ((Failure.ofFile .inputOutput).within (.readEntry (Path.ofString "d"))) ∧
      added = ⟨1, 3, 1, 1, 4⟩ ∧
      (obtained sampleConfig Receiver.acceptAll.toObjectStore (Path.ofString "d")
        (Session.start brokenDisk () sampleSession.suffix)).length = 3) ∧
    ∃ report s',
      (run sampleConfig Receiver.acceptAll.toObjectStore).perform (sampleSession.withStore ())
        = (.ok report, s') ∧
      report.directories = 1 ∧
      report.uploads = 3 * report.tarCandidates + report.plainCandidates := by
  have unseen : sampleReceiver.toObjectStore.IgnoresReport := Receiver.ignoresReport _
  have accepting : Receiver.acceptAll.toObjectStore.IgnoresReport := Receiver.ignoresReport _
  refine ⟨unseen, ?_, ?_, ?_⟩
  · obtain ⟨added, billed, -, -, entries, -, -, owed, -⟩ :=
      (run_counters unseen sampleConfig).1 (Path.ofString "d") (sampleSession.withStore 0)
    -- The counters after the directory tell what was added.
    have told := billed.report_eq
    rw [report_sample_refused, show (sampleSession.withStore 0).report = 0 from rfl,
      zero_add] at told
    subst told
    exact ⟨_, billed, rfl, entries.symm, owed⟩
  · obtain ⟨added, billed, -, -, entries, -⟩ := (run_counters accepting sampleConfig).1
      (Path.ofString "d") (Session.start brokenDisk () sampleSession.suffix)
    have told := billed.report_eq
    rw [report_brokenDisk.2, show (Session.start brokenDisk () sampleSession.suffix).report = 0 from rfl,
      zero_add] at told
    subst told
    exact ⟨_, billed, report_brokenDisk.1, rfl, entries.symm⟩
  · obtain ⟨directories, uploads⟩ := (run_counters accepting sampleConfig).2
      (sampleSession.withStore ()) _ _ (Prod.ext run_sample rfl)
    exact ⟨_, _, Prod.ext run_sample rfl, directories, uploads⟩

end Walk
end ArtifactCourier
