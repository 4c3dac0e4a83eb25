/-
  ArtifactCourier.Proofs.Walk.FailFast
  ──────────────────────────────────────
  **The first refusal ends a walk.**

  A walk to a receiver that may refuse is compared with the same walk to one that takes
  everything.  Up to the first refusal the two do the same; at the first refusal the former
  ends, with the refusal as its failure and nothing handed over after it.

    • `Follows` — an action with a receiver follows the same action with one that takes
      everything,
    • `Follows.bind`, `Follows.orElseCleanUp`, `Follows.forM` — following goes through every
      way in which actions are put together,
    • `follows_run` — so a whole walk follows,
    • `run_failFast` — the law in terms of what was handed over, what is told, and what the
      store holds.
-/
import Mathlib
import ArtifactCourier.Proofs.Walk.Steps

namespace ArtifactCourier

open Store

variable {σ α β : Type}

/-! ## §1. Following. -/

/-- All of `made` was taken, and the action went as it does when everything is taken. -/
structure WentThrough (r : Receiver σ) (s : Session σ) (x : Except Failure α × Session σ)
    (y : Except Failure α × Session Unit) (made : List Stored) : Prop where
  taken : r.Takes s.store made x.2.store
  result : x.1 = y.1
  twin : x.2.Twin y.2

/-- One of `made` was refused: those before it were taken, it is the last that was handed over,
and the refusal is the outcome. -/
def WasRefused (r : Receiver σ) (s : Session σ) (x : Except Failure α × Session σ)
    (made : List Stored) : Prop :=
  ∃ before o after state f, made = before ++ o :: after ∧ r.Takes s.store before state
    ∧ r.answer o state = (.error f, x.2.store) ∧ x.1 = .error f
    ∧ x.2.handovers = s.handovers ++ before ++ [o]

/-- **An action with a receiver follows an action with one that takes everything.**  The latter
hands over `made`; the former goes through if all of `made` is taken, and ends at the first
refusal if not. -/
def Follows (r : Receiver σ) (w : Work σ α) (v : Work Unit α) : Prop :=
  ∀ (s : Session σ) (t : Session Unit), s.Twin t →
    ∃ made, (v.perform t).2.handovers = t.handovers ++ made
      ∧ (WentThrough r s (w.perform s) (v.perform t) made ∨ WasRefused r s (w.perform s) made)

variable {r : Receiver σ}

/-- What hands nothing over and does the same in twin sessions follows. -/
theorem Follows.of_silent {w : Work σ α} {v : Work Unit α}
    (h : ∀ (s : Session σ) (t : Session Unit), s.Twin t →
      (w.perform s).1 = (v.perform t).1 ∧ (w.perform s).2.Twin (v.perform t).2
        ∧ (w.perform s).2.store = s.store ∧ (v.perform t).2.handovers = t.handovers) :
    Follows r w v := by
  intro s t twin
  obtain ⟨result, still, store, handovers⟩ := h s t twin
  refine ⟨[], by rw [handovers, List.append_nil], .inl ⟨?_, result, still⟩⟩
  rw [store]
  exact .nil

theorem Follows.pure (a : α) : Follows r (pure a) (pure a) :=
  of_silent fun _ _ twin => ⟨rfl, twin, rfl, rfl⟩

/-- **Following goes through sequences.** -/
theorem Follows.bind {w : Work σ α} {v : Work Unit α} {f : α → Work σ β} {g : α → Work Unit β}
    (first : Follows r w v) (second : ∀ a, Follows r (f a) (g a)) :
    Follows r (w >>= f) (v >>= g) := by
  intro s t twin
  obtain ⟨made, handovers, went⟩ := first s t twin
  rw [Work.perform_bind, Work.perform_bind]
  rcases hv : v.perform t with ⟨e | a, t'⟩ <;> rw [hv] at handovers went
  · -- The second action is never begun.
    refine ⟨made, handovers, ?_⟩
    rcases went with ⟨taken, result, still⟩ | ⟨before, o, after, state, f, rest⟩
    · rcases hw : w.perform s with ⟨e' | a, s'⟩ <;> rw [hw] at taken result still
      · cases result
        exact .inl ⟨taken, rfl, still⟩
      · cases result
    · obtain ⟨hmade, htaken, hanswer, hresult, hhanded⟩ := rest
      rcases hw : w.perform s with ⟨e' | a, s'⟩ <;> rw [hw] at hanswer hresult hhanded
      · cases hresult
        exact .inr ⟨before, o, after, state, _, hmade, htaken, hanswer, rfl, hhanded⟩
      · cases hresult
  · rcases went with ⟨taken, result, still⟩ | ⟨before, o, after, state, f, rest⟩
    · rcases hw : w.perform s with ⟨e' | a', s'⟩ <;> rw [hw] at taken result still
      · cases result
      · cases result
        obtain ⟨made', handovers', went'⟩ := second a s' t' still
        refine ⟨made ++ made', by rw [handovers', handovers, List.append_assoc], ?_⟩
        rcases went' with ⟨taken', result', still'⟩ | ⟨before, o, after, state, f, rest⟩
        · exact .inl ⟨taken.append taken', result', still'⟩
        · obtain ⟨hmade, htaken, hanswer, hresult, hhanded⟩ := rest
          have earlier : s'.handovers = s.handovers ++ made := by
            rw [still.handovers, handovers, ← twin.handovers]
          refine .inr ⟨made ++ before, o, after, state, f, ?_, taken.append htaken, hanswer,
            hresult, ?_⟩
          · rw [hmade, List.append_assoc]
          · rw [hhanded, earlier, List.append_assoc s.handovers]
    · -- The second action is begun only where nothing is refused; what it hands over there is
      -- behind the refusal.
      obtain ⟨hmade, htaken, hanswer, hresult, hhanded⟩ := rest
      rcases hw : w.perform s with ⟨e' | a', s'⟩ <;> rw [hw] at hanswer hresult hhanded
      · cases hresult
        obtain ⟨made', handovers', -⟩ := second a (t'.withStore s'.store) t' ⟨rfl, rfl, rfl, rfl⟩
        refine ⟨made ++ made', by rw [handovers', handovers, List.append_assoc],
          .inr ⟨before, o, after ++ made', state, _, ?_, htaken, hanswer, rfl, hhanded⟩⟩
        rw [hmade, List.append_assoc, List.cons_append]
      · cases hresult

/-- Cleaning up changes nothing but the disk, in the same way whatever the store. -/
def CleansUp (c : Work σ Unit) (change : FileSystem → FileSystem) : Prop :=
  ∀ s, c.perform s = (.ok (), { s with disk := change s.disk })

theorem CleansUp.perform_orElseCleanUp {c : Work σ Unit} {change : FileSystem → FileSystem}
    (hc : CleansUp c change) (w : Work σ α) (s : Session σ) :
    (Work.orElseCleanUp w c).perform s =
      match w.perform s with
      | (.ok a, s') => (.ok a, s')
      | (.error f, s') => (.error f, { s' with disk := change s'.disk }) := by
  rw [Work.perform_orElseCleanUp]
  rcases w.perform s with ⟨f | a, s'⟩
  · dsimp only
    rw [hc]
  · rfl

/-- **Following goes through cleaning up after a failure.** -/
theorem Follows.orElseCleanUp {w : Work σ α} {v : Work Unit α} {c : Work σ Unit}
    {d : Work Unit Unit} {change : FileSystem → FileSystem} (h : Follows r w v)
    (hc : CleansUp c change) (hd : CleansUp d change) :
    Follows r (Work.orElseCleanUp w c) (Work.orElseCleanUp v d) := by
  intro s t twin
  obtain ⟨made, handovers, went⟩ := h s t twin
  rw [hc.perform_orElseCleanUp, hd.perform_orElseCleanUp]
  refine ⟨made, ?_, ?_⟩
  · -- What was handed over does not depend on the disk.
    rcases hv : v.perform t with ⟨g | b, t'⟩ <;> rw [hv] at handovers <;> exact handovers
  rcases went with ⟨taken, result, still⟩ | ⟨before, o, after, state, f, rest⟩
  · left
    rcases hw : w.perform s with ⟨f | a, s'⟩ <;> rcases hv : v.perform t with ⟨g | b, t'⟩ <;>
      rw [hw] at taken result still <;> rw [hv] at result still <;> cases result
    · exact ⟨taken, rfl, ⟨congrArg change still.disk, still.events, still.report, still.suffix⟩⟩
    · exact ⟨taken, rfl, still⟩
  · right
    obtain ⟨hmade, htaken, hanswer, hresult, hhanded⟩ := rest
    rcases hw : w.perform s with ⟨g | a, s'⟩ <;> rw [hw] at hanswer hresult hhanded
    · cases hresult
      exact ⟨before, o, after, state, _, hmade, htaken, hanswer, rfl, hhanded⟩
    · cases hresult

/-- **Following goes through loops.** -/
theorem Follows.forM {ι : Type} {f : ι → Work σ PUnit} {g : ι → Work Unit PUnit} (l : List ι)
    (h : ∀ a, Follows r (f a) (g a)) : Follows r (l.forM f) (l.forM g) := by
  induction l with
  | nil => exact Follows.pure _
  | cons a l ih =>
    rw [List.forM, List.forM]
    exact (h a).bind fun _ => ih

/-! ## §2. Steps that hand nothing over. -/

theorem Follows.log (line : Log.Line) : Follows r (Work.log line) (Work.log line) := by
  apply Follows.of_silent
  intro s t twin
  exact ⟨rfl, twin.recorded _, rfl, Session.handovers_of_log rfl⟩

theorem Follows.count (f : Report → Report) : Follows r (Work.count f) (Work.count f) := by
  apply Follows.of_silent
  intro s t twin
  exact ⟨rfl, ⟨twin.disk, twin.events, congrArg f twin.report, twin.suffix⟩, rfl, rfl⟩

theorem Follows.onDisk (action : Disk α) : Follows r (Work.onDisk action) (Work.onDisk action) := by
  apply Follows.of_silent
  intro s t twin
  rw [Work.perform_onDisk, Work.perform_onDisk, twin.disk]
  exact ⟨rfl, ⟨rfl, twin.events, twin.report, twin.suffix⟩, rfl, rfl⟩

/-- A choice that looks only at what twins share is the same for both. -/
theorem Follows.get_bind {f : Session σ → Work σ α} {g : Session Unit → Work Unit α}
    (h : ∀ s t, s.Twin t → ∃ w v, f s = w ∧ g t = v ∧ Follows r w v) :
    Follows r (get >>= f) (get >>= g) := by
  intro s t twin
  obtain ⟨w, v, rfl, rfl, follows⟩ := h s t twin
  rw [Work.perform_bind, Work.perform_bind, Work.perform_get, Work.perform_get]
  exact follows s t twin

/-! ## §3. The walk. -/

namespace Walk

theorem cleansUp_discard (dir : Path) :
    CleansUp (Scratch.discard dir : Work σ Unit)
      fun disk => (disk.removeTree dir).toOption.getD disk :=
  fun _ => rfl

/-- One upload follows: it is refused by the receiver or goes through. -/
theorem follows_store (undisturbed : r.LeavesDisk) (file : Path) (key : String) :
    Follows r (r.toObjectStore.upload file key)
      (Receiver.acceptAll.toObjectStore.upload file key) := by
  intro s t twin
  rw [Receiver.perform_upload undisturbed,
    Receiver.perform_upload Receiver.acceptAll_leavesDisk, twin.disk]
  rcases hbytes : t.disk.bytesAt file with e | content
  · -- Without a file neither receiver is asked.
    exact ⟨[], by simp, .inl ⟨.nil, rfl, twin⟩⟩
  · dsimp only
    refine ⟨[⟨key, file, content⟩], Session.handovers_of_handedOver rfl, ?_⟩
    rcases hanswer : r.answer ⟨key, file, content⟩ s.store with ⟨f | _, state⟩
    · right
      refine ⟨[], _, [], s.store, f, rfl, .nil, hanswer, rfl, ?_⟩
      rw [List.append_nil]
      exact Session.handovers_of_handedOver rfl
    · left
      have events := congrArg (·.push (Event.handedOver key file content)) twin.events
      exact ⟨Receiver.takes_singleton hanswer, rfl, ⟨rfl, events, twin.report, twin.suffix⟩⟩

section walk

variable (undisturbed : r.LeavesDisk) (config : Config)

include undisturbed

theorem follows_upload (file : Path) (name : String) :
    Follows r (upload config r.toObjectStore file name)
      (upload config Receiver.acceptAll.toObjectStore file name) := by
  unfold upload
  apply (Follows.log _).bind
  intro _
  apply (follows_store undisturbed _ _).bind
  intro _
  exact (Follows.log _).bind fun _ => Follows.count _

theorem follows_publishGzip (file : Path) (name : String) (scratch : Path) :
    Follows r (publishGzip config r.toObjectStore file name scratch)
      (publishGzip config Receiver.acceptAll.toObjectStore file name scratch) := by
  unfold publishGzip
  apply (Follows.log _).bind
  intro _
  apply ((Follows.onDisk _).bind fun _ => Follows.pure _).bind
  intro _
  exact follows_upload undisturbed config _ _

theorem follows_publishTarGz (file : Path) (name : String) (scratch : Path) :
    Follows r (publishTarGz config r.toObjectStore file name scratch)
      (publishTarGz config Receiver.acceptAll.toObjectStore file name scratch) := by
  unfold publishTarGz
  apply (Follows.log _).bind
  intro _
  apply (Follows.onDisk _).bind
  intro _
  exact follows_upload undisturbed config _ _

omit undisturbed in
theorem follows_use {w : Path → Work σ Unit} {v : Path → Work Unit Unit}
    (h : ∀ dir, Follows r (w dir) (v dir)) :
    Follows r (Scratch.use config w) (Scratch.use config v) := by
  unfold Scratch.use Scratch.create Scratch.close
  apply Follows.bind
  · apply Follows.get_bind
    intro s t twin
    refine ⟨_, _, rfl, rfl, ?_⟩
    -- Twins choose the same directory.
    rw [twin.disk, twin.suffix]
    exact (Follows.onDisk _).bind fun _ => Follows.pure _
  · intro dir
    apply ((h dir).orElseCleanUp (cleansUp_discard dir) (cleansUp_discard dir)).bind
    intro _
    exact Follows.onDisk _

theorem follows_publishTar (file : Path) (name : String) :
    Follows r (publishTar config r.toObjectStore file name)
      (publishTar config Receiver.acceptAll.toObjectStore file name) := by
  unfold publishTar
  apply (Follows.count _).bind
  intro _
  apply (follows_upload undisturbed config _ _).bind
  intro _
  apply follows_use
  intro dir
  apply (follows_publishGzip undisturbed config _ _ _).bind
  intro _
  exact follows_publishTarGz undisturbed config _ _ _

theorem follows_publishPlain (file : Path) (name : String) :
    Follows r (publishPlain config r.toObjectStore file name)
      (publishPlain config Receiver.acceptAll.toObjectStore file name) := by
  unfold publishPlain
  exact (Follows.count _).bind fun _ => follows_upload undisturbed config _ _

omit undisturbed in
theorem follows_onlyIf (asked : Bool) {w : Work σ Unit} {v : Work Unit Unit} (h : Follows r w v) :
    Follows r (onlyIf asked w) (onlyIf asked v) := by
  cases asked
  · exact Follows.pure _
  · exact h

theorem follows_publish (file : Path) (name : String) (c : Classification) :
    Follows r (publish config r.toObjectStore file name c)
      (publish config Receiver.acceptAll.toObjectStore file name c) := by
  rw [publish_eq, publish_eq]
  apply (follows_onlyIf _ (Follows.log _)).bind
  intro _
  apply (follows_onlyIf _ (follows_publishTar undisturbed config _ _)).bind
  intro _
  exact follows_onlyIf _ (follows_publishPlain undisturbed config _ _)

theorem follows_visit (dir : Path) (entry : RawText) :
    Follows r (visit config r.toObjectStore dir entry)
      (visit config Receiver.acceptAll.toObjectStore dir entry) := by
  unfold visit
  apply (Follows.count _).bind
  intro _
  split
  · exact Follows.pure _
  · next name _ =>
    dsimp only
    split
    · apply (Follows.onDisk _).bind
      intro node
      split
      · exact follows_publish undisturbed config _ _ _
      · exact Follows.log _
    · exact Follows.pure _

theorem follows_takeEntry (dir : Path) (item : Except FileError RawText) :
    Follows r (takeEntry config r.toObjectStore dir item)
      (takeEntry config Receiver.acceptAll.toObjectStore dir item) :=
  (Follows.onDisk _).bind fun _ => follows_visit undisturbed config dir _

theorem follows_processDirectory (dir : Path) :
    Follows r (processDirectory config r.toObjectStore dir)
      (processDirectory config Receiver.acceptAll.toObjectStore dir) := by
  unfold processDirectory
  apply (Follows.log _).bind
  intro _
  apply (Follows.count _).bind
  intro _
  apply (Follows.onDisk _).bind
  intro entries
  exact Follows.forM _ (follows_takeEntry undisturbed config dir)

/-- **A whole walk follows.** -/
theorem follows_run :
    Follows r (run config r.toObjectStore) (run config Receiver.acceptAll.toObjectStore) := by
  unfold run
  apply (Follows.count _).bind
  intro _
  apply (Follows.forM _ (follows_processDirectory undisturbed config)).bind
  intro _
  apply Follows.get_bind
  intro s t twin
  refine ⟨_, _, rfl, rfl, ?_⟩
  rw [twin.report]
  exact Follows.pure _

end walk

/-! ## §4. The law. -/

/-- **The first refusal ends a walk.**  Compare a walk to a receiver, behind which a shelf keeps
what is taken, with the same walk to a receiver that takes everything.  Either all that the
latter hands over is taken: then the former hands over the same, ends in the same way, and
all of it is on the shelf.  Or one of those files is refused: then those before it are taken
and it is the last that is handed over; the walk fails with the refusal; and the shelf holds
what was taken before. -/
theorem run_failFast (config : Config) (undisturbed : r.LeavesDisk) (s : Session (σ × Shelf)) :
    ∃ attempts,
      ((run config Receiver.acceptAll.toObjectStore).perform (s.withStore ())).2.handovers
        = s.handovers ++ attempts ∧
      ((∃ state,
          r.Takes s.store.1 attempts state ∧
          ((run config r.shelving.toObjectStore).perform s).2.handovers
            = s.handovers ++ attempts ∧
          ((run config r.shelving.toObjectStore).perform s).1
            = ((run config Receiver.acceptAll.toObjectStore).perform (s.withStore ())).1 ∧
          ((run config r.shelving.toObjectStore).perform s).2.store
            = (state, s.store.2.putAll attempts)) ∨
        (∃ before o after state f state',
          attempts = before ++ o :: after ∧
          r.Takes s.store.1 before state ∧
          r.answer o state = (.error f, state') ∧
          ((run config r.shelving.toObjectStore).perform s).2.handovers
            = s.handovers ++ before ++ [o] ∧
          ((run config r.shelving.toObjectStore).perform s).1 = .error f ∧
          ((run config r.shelving.toObjectStore).perform s).2.store
            = (state', s.store.2.putAll before))) := by
  have still : r.shelving.LeavesDisk := undisturbed
  obtain ⟨attempts, handovers, went⟩ :=
    follows_run still config s (s.withStore ()) (s.twin_withStore ())
  refine ⟨attempts, handovers, ?_⟩
  rcases went with ⟨taken, result, twin⟩ | ⟨before, o, after, state, f, rest⟩
  · left
    -- What is taken with a shelf behind is taken without it, and is on the shelf.
    obtain ⟨htaken, hshelf⟩ := Receiver.takes_shelving_iff.1 taken
    refine ⟨_, htaken, ?_, result, Prod.ext rfl hshelf⟩
    rw [twin.handovers]
    exact handovers
  · right
    obtain ⟨hattempts, taken, hanswer, hresult, hhanded⟩ := rest
    obtain ⟨htaken, hshelf⟩ := Receiver.takes_shelving_iff.1 taken
    obtain ⟨hrefused, hkept⟩ := Receiver.answer_shelving_error.1 hanswer
    refine ⟨before, o, after, state.1, f, _, hattempts, htaken, hrefused, hhanded, hresult, ?_⟩
    exact Prod.ext rfl (hkept.trans hshelf)

/-- Where a walk goes through that asks a receiver, it goes through if everything is taken, with
any shelf to begin with. -/
theorem succeeds_alone {r : Receiver σ} (undisturbed : r.LeavesDisk) (config : Config)
    {s s' : Session σ} {report : Report}
    (h : (run config r.toObjectStore).perform s = (.ok report, s'))
    (shelf : Shelf) :
    ∃ u, (run config Receiver.acceptAll.shelving.toObjectStore).perform (s.withStore ((), shelf))
      = (.ok report, u) := by
  have through : ((run config Receiver.acceptAll.toObjectStore).perform (s.withStore ())).1
      = .ok report := by
    obtain ⟨_, -, went⟩ := follows_run undisturbed config s _ (s.twin_withStore ())
    rw [h] at went
    rcases went with ⟨-, result, -⟩ | ⟨_, _, _, _, _, _, _, _, result, _⟩
    · exact result.symm
    · cases result
  have accepting : Receiver.acceptAll.shelving.LeavesDisk := fun _ _ => rfl
  obtain ⟨_, -, went⟩ := follows_run accepting config (s.withStore ((), shelf)) (s.withStore ())
    ⟨rfl, rfl, rfl, rfl⟩
  rcases went with ⟨-, result, -⟩ | ⟨_, _, _, _, _, _, _, hanswer, _⟩
  · exact ⟨_, Prod.ext (result.trans through) rfl⟩
  · cases (Receiver.answer_shelving_error.1 hanswer).1

/-- A disk with a directory `d` that holds two files, a directory and a name that is no text. -/
def sampleDisk : FileSystem where
  nodes := #[
    ⟨.directory [⟨RawText.ofString "d", 1⟩, ⟨RawText.ofString "w", 4⟩] FileSystem.root,
      Node.directoryMode, 0⟩,
    ⟨.directory [⟨RawText.ofString "b.wasm", 2⟩, ⟨⟨[0xFF]⟩, 2⟩, ⟨RawText.ofString "a.wasm", 3⟩,
      ⟨RawText.ofString "c", 2⟩, ⟨RawText.ofString "b.d", 4⟩, ⟨RawText.ofString "a.json", 2⟩]
      FileSystem.root, Node.directoryMode, 0⟩,
    Node.file (.ofBytes "bb".toUTF8),
    Node.file (.ofBytes "a".toUTF8),
    ⟨.directory [] FileSystem.root, Node.directoryMode, 0⟩]
  workingDirectory := FileSystem.root
  workingPath := Path.ofString "/"
  tempPath := Path.ofString "/w"

/-- Two of the files are tar candidates, and so is the directory by its name. -/
def sampleConfig : Config :=
  { Config.default with
    tarPrefixes := ["a.", "b.d"], plainPrefixes := ["b."], dirs := [Path.ofString "d"],
    uploadDir := "v1" }

/-- A receiver that takes a number of files and no more. -/
def takingOnly (limit : Nat) : Receiver Nat where
  receive _ _ _ taken :=
    if taken < limit then (.ok (), taken + 1)
    else (.error (.ofProblem (.store "no room")), taken)
  meanwhile _ disk := disk

def sampleSession : Session (Nat × Shelf) :=
  Session.start sampleDisk (0, []) fun _ => RawText.ofString "x"

/-- There is room for `b.wasm`, `a.wasm` and the gzip copy of `a.wasm`. -/
def sampleReceiver : Receiver Nat := takingOnly 3

theorem sampleReceiver_leavesDisk : sampleReceiver.LeavesDisk := fun _ _ => rfl

/-- Where there is room, the sample walk succeeds. -/
theorem run_sample :
    ((run sampleConfig Receiver.acceptAll.toObjectStore).perform
      (sampleSession.withStore ())).1 = .ok ⟨1, 6, 2, 1, 7⟩ := by
  delta run processDirectory takeEntry visit publish publishTar publishGzip publishTarGz
    Compression.gzipFile Compression.tarGzFile Compression.writeCompressed
    Compression.writeRemains
  dsimp only
  -- What the compressed forms are is of no importance to the counters.
  generalize Gzip.encodePieces = encode
  generalize Compression.memberPieces = pieces
  generalize Compression.refusal = refusal
  cbv

/-- The sample walk is refused at the archive of its first tar candidate. -/
theorem run_sample_refused :
    ((run sampleConfig sampleReceiver.shelving.toObjectStore).perform
      sampleSession).1.isOk = false ∧
    ((run sampleConfig sampleReceiver.shelving.toObjectStore).perform
      sampleSession).2.handovers.map Stored.key
        = ["v1/b.wasm", "v1/a.wasm", "v1/a.wasm.gz", "v1/a.wasm.tar.gz"] := by
  delta run processDirectory takeEntry visit publish publishTar publishGzip publishTarGz
    Compression.gzipFile Compression.tarGzFile Compression.writeCompressed
    Compression.writeRemains
  dsimp only
  generalize Gzip.encodePieces = encode
  generalize Compression.memberPieces = pieces
  generalize Compression.refusal = refusal
  cbv

/-- A refusal in the middle of a file. -/
theorem run_failFast_at_refusal :
    sampleReceiver.LeavesDisk ∧
    ∃ before o after f,
      ((run sampleConfig Receiver.acceptAll.toObjectStore).perform
          (sampleSession.withStore ())).2.handovers = before ++ o :: after ∧
      ((run sampleConfig sampleReceiver.shelving.toObjectStore).perform sampleSession).2.handovers
        = before ++ [o] ∧
      (before ++ [o]).map Stored.key
        = ["v1/b.wasm", "v1/a.wasm", "v1/a.wasm.gz", "v1/a.wasm.tar.gz"] ∧
      ((run sampleConfig sampleReceiver.shelving.toObjectStore).perform sampleSession).1
        = .error f ∧
      ((run sampleConfig sampleReceiver.shelving.toObjectStore).perform
          sampleSession).2.store.2 = Shelf.putAll [] before := by
  refine ⟨sampleReceiver_leavesDisk, ?_⟩
  obtain ⟨failed, keys⟩ := run_sample_refused
  obtain ⟨attempts, hall, went⟩ :=
    run_failFast sampleConfig sampleReceiver_leavesDisk sampleSession
  -- The two runs end differently, so the first alternative is out.
  rcases went with ⟨_, _, _, result, _⟩ | ⟨before, o, after, _, f, _, rest⟩
  · rw [result, run_sample] at failed
    cases failed
  · obtain ⟨rfl, _, _, handed, result, store⟩ := rest
    rw [handed] at keys
    exact ⟨before, o, after, f, hall, handed, keys, result, congrArg Prod.snd store⟩

end Walk
end ArtifactCourier
