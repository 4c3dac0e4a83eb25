/-
  ArtifactCourier.Proofs.Walk.Succeeds
  ──────────────────────────────────────
  **When an action succeeds, and what it warns of.**

  `Succeeds suffix D w φ passed E` is a triple for total correctness: from a disk with `D`, the
  action `w` succeeds if and only if `φ`; then it leaves a disk with `E` and has warned of exactly
  the files `passed`.

    • `Succeeds.bind`, `Succeeds.forM` — triples are put together,
    • `Succeeds.onDisk`, `Succeeds.look` — actions on the disk,
    • `succeeds_use` — work in a scratch directory succeeds if the work does.
-/
import ArtifactCourier.Proofs.Compression.InScratch
import ArtifactCourier.Proofs.Scratch
import ArtifactCourier.Proofs.Walk.Uploads

namespace ArtifactCourier

open Store FileSystem Compression

variable {σ α β : Type}

/-! ## §1. Warnings. -/

/-- The file that an event says was passed over, if it does. -/
def Event.skipped? : Event → Option Path
  | .log (.notRegular file) => some file
  | _ => none

/-- The files that were passed over with a warning so far, in order. -/
def Session.skipped (s : Session σ) : List Path := s.events.toList.filterMap Event.skipped?

theorem Session.skipped_of_push {s t : Session σ} {e : Event} (h : t.events = s.events.push e) :
    t.skipped = s.skipped ++ e.skipped?.toList := by
  unfold skipped
  rw [h, Array.toList_push, List.filterMap_append]
  cases he : e.skipped? <;> simp [he]

/-! ## §2. Triples. -/

/-- From a disk with `D`, and with `suffix` choosing scratch directories, an action succeeds if and
only if `φ`; then it leaves a disk with `E` and has warned of exactly the files `passed`. -/
def Succeeds (suffix : List RawText → RawText) (D : FileSystem → Prop) (w : Work σ α) (φ : Prop)
    (passed : List Path) (E : α → FileSystem → Prop) : Prop :=
  ∀ s, s.suffix = suffix → D s.disk →
    (φ → ∃ a s', w.perform s = (.ok a, s')) ∧
      ∀ a s', w.perform s = (.ok a, s') →
        φ ∧ s'.suffix = suffix ∧ E a s'.disk ∧ s'.skipped = s.skipped ++ passed

namespace Succeeds

variable {suffix : List RawText → RawText} {D : FileSystem → Prop} {E : α → FileSystem → Prop}
  {F : β → FileSystem → Prop} {w : Work σ α} {f : α → Work σ β} {φ ψ : Prop}
  {first second : List Path}

theorem congr (hw : Succeeds suffix D w φ first E) (h : φ ↔ ψ) : Succeeds suffix D w ψ first E :=
  propext h ▸ hw

/-- **One action after the other** succeeds if and only if both do. -/
theorem bind (hw : Succeeds suffix D w φ first E)
    (hf : ∀ a, Succeeds suffix (E a) (f a) ψ second F) :
    Succeeds suffix D (w >>= f) (φ ∧ ψ) (first ++ second) F := by
  intro s hs hD
  obtain ⟨starts, started⟩ := hw s hs hD
  constructor
  · intro given
    obtain ⟨a, s', hfirst⟩ := starts given.1
    obtain ⟨-, hs', hE, -⟩ := started a s' hfirst
    obtain ⟨b, s'', hsecond⟩ := (hf a s' hs' hE).1 given.2
    exact ⟨b, s'', Work.perform_bind_eq_ok.2 ⟨a, s', hfirst, hsecond⟩⟩
  · intro b s'' hrun
    obtain ⟨a, s', hfirst, hsecond⟩ := Work.perform_bind_eq_ok.1 hrun
    obtain ⟨hφ, hs', hE, before⟩ := started a s' hfirst
    obtain ⟨hψ, hs'', hF, after⟩ := (hf a s' hs' hE).2 b s'' hsecond
    exact ⟨⟨hφ, hψ⟩, hs'', hF, by rw [after, before, List.append_assoc]⟩

/-- What always succeeds and warns of nothing only prepares what follows it. -/
theorem silent_bind (hw : Succeeds suffix D w True [] E)
    (hf : ∀ a, Succeeds suffix (E a) (f a) ψ second F) :
    Succeeds suffix D (w >>= f) ψ second F :=
  (hw.bind hf).congr (iff_of_eq (true_and ψ))

/-- What always succeeds and warns of nothing ends what goes before it. -/
theorem bind_silent (hw : Succeeds suffix D w φ first E)
    (hf : ∀ a, Succeeds suffix (E a) (f a) True [] F) :
    Succeeds suffix D (w >>= f) φ first F := by
  rw [← List.append_nil first]
  exact (hw.bind hf).congr (iff_of_eq (and_true φ))

theorem pure {E : α → FileSystem → Prop} (a : α) :
    Succeeds suffix (E a) (Pure.pure a : Work σ α) True [] E := by
  intro s hs hE
  refine ⟨fun _ => ⟨a, s, rfl⟩, fun b s' hrun => ?_⟩
  cases hrun
  exact ⟨trivial, hs, hE, (List.append_nil _).symm⟩

/-- A fact that does not depend on the disk is at hand from then on. -/
theorem of_fact {χ : Prop} (h : χ → Succeeds suffix D w φ first E) :
    Succeeds suffix (fun disk => χ ∧ D disk) w φ first E :=
  fun s hs hD => h hD.1 s hs hD.2

theorem weaken {E' : α → FileSystem → Prop} (hw : Succeeds suffix D w φ first E)
    (h : ∀ a disk, E a disk → E' a disk) : Succeeds suffix D w φ first E' := by
  intro s hs hD
  refine ⟨(hw s hs hD).1, fun a s' hrun => ?_⟩
  obtain ⟨hφ, hs', hE, warned⟩ := (hw s hs hD).2 a s' hrun
  exact ⟨hφ, hs', h a s'.disk hE, warned⟩

/-- What an action gives may be thrown away. -/
theorem discard {E : FileSystem → Prop} (hw : Succeeds suffix D w φ first fun _ => E) :
    Succeeds suffix D (Functor.discard w) φ first fun _ => E :=
  hw.bind_silent fun _ => Succeeds.pure (E := fun _ => E) PUnit.unit

theorem log (line : Log.Line) :
    Succeeds suffix D (Work.log line : Work σ Unit) True (Event.log line).skipped?.toList
      fun _ => D := by
  intro s hs hD
  refine ⟨fun _ => ⟨_, _, rfl⟩, fun a s' hrun => ?_⟩
  cases hrun
  exact ⟨trivial, hs, hD, Session.skipped_of_push rfl⟩

theorem count (g : Report → Report) :
    Succeeds suffix D (Work.count g : Work σ Unit) True [] fun _ => D := by
  intro s hs hD
  refine ⟨fun _ => ⟨_, _, rfl⟩, fun a s' hrun => ?_⟩
  cases hrun
  exact ⟨trivial, hs, hD, (List.append_nil _).symm⟩

/-- An action on the disk succeeds as it does there. -/
theorem onDisk {action : Disk α}
    (h : ∀ disk, D disk → (φ → ∃ a disk', action.perform disk = (.ok a, disk')) ∧
      ∀ a disk', action.perform disk = (.ok a, disk') → φ ∧ E a disk') :
    Succeeds suffix D (Work.onDisk action : Work σ α) φ [] E := by
  intro s hs hD
  rw [Work.perform_onDisk]
  obtain ⟨succeeds, succeeded⟩ := h s.disk hD
  constructor
  · intro given
    obtain ⟨a, disk', hperform⟩ := succeeds given
    exact ⟨a, _, by rw [hperform]⟩
  · intro a s' hrun
    rcases hperform : action.perform s.disk with ⟨result, disk'⟩
    rw [hperform] at hrun
    cases hrun
    obtain ⟨hφ, hE⟩ := succeeded a disk' hperform
    exact ⟨hφ, hs, hE, (List.append_nil _).symm⟩

/-- What is looked up is found if and only if it is there. -/
theorem look {p : Problem} {g : FileSystem → Except FileError α} {answer : Except FileError α}
    (h : ∀ disk, D disk → g disk = answer) :
    Succeeds suffix D (Work.onDisk (Disk.look p g) : Work σ α) (∃ a, answer = .ok a) []
      fun a disk => answer = .ok a ∧ D disk := by
  apply onDisk
  intro disk hD
  constructor
  · rintro ⟨a, given⟩
    exact ⟨a, disk, Disk.perform_look_eq_ok.2 ⟨(h disk hD).trans given, rfl⟩⟩
  · intro a disk' hlook
    obtain ⟨found, rfl⟩ := Disk.perform_look_eq_ok.1 hlook
    have given := (h disk' hD).symm.trans found
    exact ⟨⟨a, given⟩, given, hD⟩

/-- **A loop succeeds if and only if all of its rounds do.** -/
theorem forM {ι : Type} {l : List ι} {g : ι → Work σ PUnit} {φ : ι → Prop}
    {passed : ι → List Path}
    (h : ∀ i ∈ l, Succeeds suffix D (g i) (φ i) (passed i) fun _ => D) :
    Succeeds suffix D (l.forM g) (∀ i ∈ l, φ i) (l.flatMap passed) fun _ => D := by
  induction l with
  | nil => exact (Succeeds.pure (E := fun _ => D) PUnit.unit).congr (by simp)
  | cons i l ih =>
    rw [List.forM, List.flatMap_cons]
    refine Succeeds.congr ?_ (List.forall_mem_cons (p := φ)).symm
    exact (h i List.mem_cons_self).bind fun _ => ih fun j hj => h j (List.mem_cons_of_mem _ hj)

end Succeeds

/-! ## §3. Scratch directories. -/

namespace FileSystem

variable {fs fs' : FileSystem} {p : Path} {dir : NodeId} {name : RawText}

/-- What is free stays free where nothing is lost and nothing added to what was there. -/
theorem FreeAt.of_kept (sound : fs.Sound) (kept : fs.Kept fs') (h : fs.FreeAt p dir name) :
    fs'.FreeAt p dir name := by
  obtain ⟨path, directory, before, hlast, way⟩ := holder_eq_ok.1 h.holder
  have there := isDirectoryAt_lt directory
  refine ⟨holder_eq_ok.2 ⟨path, ?_, before, hlast, ?_⟩, h.isName, h.short, ?_⟩
  · rwa [kept.isDirectoryAt there]
  · rwa [kept.startOf, follow_kept sound kept _ _ _ _ (sound.startOf_lt p)]
  · rw [kept.child? there]
    exact h.free

/-- Where a name is free a directory can be made. -/
theorem FreeAt.exists_makeNode (h : fs.FreeAt p dir name) {n : NodeId → Node}
    (directory : ∀ parent, (n parent).isDirectory = true) :
    ∃ fs', fs.makeNode p n = .ok fs' := by
  unfold makeNode
  rw [h.holder]
  simp only [bind, Except.bind, h.isName, h.short, h.free, directory, Bool.not_true,
    Bool.false_eq_true, Option.isSome_none, Bool.and_false, if_false]
  exact ⟨_, rfl⟩

end FileSystem

namespace Scratch

/-- **The working directory can be written to**: a scratch directory can be made there, and there is
room in it for names of every length. -/
structure Writable (config : Config) (disk : FileSystem) (suffix : List RawText → RawText) :
    Prop where
  makes : ∃ disk', disk.makeNode (place config disk suffix)
    (fun parent => ⟨.directory [] parent, mode, 0⟩) = .ok disk'
  room : (place config disk suffix).bytes.length + 1 + maxNameLength < maxPathLength

/-- There is room in the scratch directory for a name. -/
theorem Writable.checkPath_join {config : Config} {fs : FileSystem}
    {suffix : List RawText → RawText} (writable : Writable config fs suffix) {name : RawText}
    (step : name.IsStep) (plain : 0 ∉ name.bytes) (short : name.bytes.length ≤ maxNameLength) :
    checkPath ((place config fs suffix).join name) = .ok () := by
  obtain ⟨_, made⟩ := writable.makes
  obtain ⟨dir, last, free, -⟩ := makeNode_eq_ok made
  refine FileSystem.checkPath_join (holder_eq_ok.1 free.holder).1 step plain ?_
  exact Nat.lt_of_le_of_lt (Nat.add_le_add_left short _) writable.room

end Scratch

namespace Walk

section scratch

variable {config : Config} {fs : FileSystem} {suffix : List RawText → RawText}
  (sound : fs.Sound) (writable : Scratch.Writable config fs suffix)

include sound writable

/-- **A scratch directory can be made**, again and again. -/
theorem succeeds_create :
    Succeeds suffix fs.Kept (Scratch.create config : Work σ Path) True []
      fun scratch disk => scratch = Scratch.place config fs suffix ∧
        ∃ id, fs.HasScratch scratch id disk := by
  intro s hs kept
  have place : Scratch.place config s.disk s.suffix = Scratch.place config fs suffix := by
    rw [hs, Scratch.place_kept sound kept]
  constructor
  · intro _
    obtain ⟨_, made⟩ := writable.makes
    obtain ⟨dir, name, free, -⟩ := makeNode_eq_ok made
    obtain ⟨disk, made'⟩ := (free.of_kept sound kept).exists_makeNode
      (n := fun parent => ⟨.directory [] parent, Scratch.mode, 0⟩) fun _ => rfl
    exact ⟨_, _, perform_create_eq_ok.2 ⟨place.symm, disk, made', rfl⟩⟩
  · intro scratch s' hrun
    obtain ⟨rfl, disk, made, rfl⟩ := perform_create_eq_ok.1 hrun
    exact ⟨trivial, hs, ⟨place, hasScratch_of_makeNode sound kept made⟩, (List.append_nil _).symm⟩

omit writable in
/-- A scratch directory can be taken away. -/
theorem succeeds_close (scratch : Path) :
    Succeeds suffix (fun disk => ∃ id, fs.HasScratch scratch id disk)
      (Scratch.close scratch : Work σ Unit) True [] fun _ => fs.Kept := by
  rintro s hs ⟨id, made⟩
  obtain ⟨disk, removed, kept⟩ := made.removeTree sound
  refine ⟨fun _ => ⟨_, _, perform_close_eq_ok.2 ⟨disk, removed, rfl⟩⟩, fun a s' hrun => ?_⟩
  obtain ⟨disk', removed', rfl⟩ := perform_close_eq_ok.1 hrun
  obtain rfl := Except.ok.inj (removed.symm.trans removed')
  exact ⟨trivial, hs, kept, (List.append_nil _).symm⟩

/-- **Work in a scratch directory succeeds if the work does.** -/
theorem succeeds_use {work : Path → Work σ Unit} {φ : Prop} {passed : List Path}
    (h : ∀ id, Succeeds suffix (fs.HasScratch (Scratch.place config fs suffix) id)
      (work (Scratch.place config fs suffix)) φ passed
      fun _ => fs.HasScratch (Scratch.place config fs suffix) id) :
    Succeeds suffix fs.Kept (Scratch.use config work) φ passed fun _ => fs.Kept := by
  unfold Scratch.use
  apply (succeeds_create sound writable).silent_bind
  intro scratch
  apply Succeeds.of_fact
  rintro rfl
  refine Succeeds.bind_silent ?_ fun _ => succeeds_close sound _
  -- The cleaning up takes place only where the work fails.
  rintro s hs ⟨id, made⟩
  simp only [Work.perform_orElseCleanUp_eq_ok]
  obtain ⟨succeeds, succeeded⟩ := h id s hs made
  refine ⟨succeeds, fun a s' hrun => ?_⟩
  obtain ⟨hφ, hs', made', warned⟩ := succeeded a s' hrun
  exact ⟨hφ, hs', ⟨id, made'⟩, warned⟩

end scratch

end Walk

end ArtifactCourier
