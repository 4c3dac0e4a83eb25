/-
  ArtifactCourier.Proofs.Walk.OtherEntries
  ──────────────────────────────────────
  **What is not published is not noticed.**

  Into the directories of a walk other entries may be put, at any places: entries that are no
  candidates, whatever they lead to, and candidates that lead to something other than a regular
  file.  The walk uploads the same, records the same and ends in the same way.  Only the counter of
  entries differs, and there is one line for each candidate that is skipped.

    • `OnlyAdds` — a directory that differs by other entries only,
    • `together_visit`, `alike_visit_added` — an entry that both disks have, and one that was added,
    • `alike_visits`, `alike_directories` — the loops, by induction,
    • `run_ignores_others` — the law.
-/
import ArtifactCourier.Proofs.Walk.FaithfulLog
import ArtifactCourier.Proofs.Walk.Lockstep

namespace ArtifactCourier.Walk

open Store FileSystem

variable {σ : Type}

/-! ## §1. Other entries. -/

/-- The name of an entry makes it a candidate. -/
def IsCandidate (config : Config) (entry : RawText) (name : String) : Prop :=
  entry.toString? = some name ∧ (Classification.ofName config name).isCandidate = true

/-- **A candidate is the same on both disks**: a look at it is refused for the same reason, or shows
the same regular file of the same owner, or shows something else. -/
inductive LooksAlike (fs fs' : FileSystem) (file : Path) : Prop
  | refused {e : FileError} :
      fs.stat file = .error e → fs'.stat file = .error e → LooksAlike fs fs' file
  | regular {n : Node} :
      fs.stat file = .ok n → fs'.stat file = .ok n → fs'.ownerAt file = fs.ownerAt file →
      n.isFile = true → LooksAlike fs fs' file
  | other {n n' : Node} :
      fs.stat file = .ok n → fs'.stat file = .ok n' → n.isFile = false → n'.isFile = false →
      LooksAlike fs fs' file

/-- **A directory differs by other entries only.**  It cannot be listed on either disk, for the same
reason; or the second listing is the first one with entries put into it and ends in the same way,
its candidates are the same, and those that were added lead to something other than a regular
file. -/
inductive OnlyAdds (config : Config) (fs fs' : FileSystem) (dir : Path) : Prop
  | unlisted {e : FileError} :
      fs.readDirectory dir = .error e → fs'.readDirectory dir = .error e →
      OnlyAdds config fs fs' dir
  | listed {l l' : Listing} :
      fs.readDirectory dir = .ok l → fs'.readDirectory dir = .ok l' →
      l.names.Sublist l'.names → l'.names.Nodup → l'.ending = l.ending →
      (∀ e ∈ l.names, ∀ name, IsCandidate config e name → LooksAlike fs fs' (dir.join e)) →
      (∀ e ∈ l'.names, e ∉ l.names → ∀ name, IsCandidate config e name →
        ∃ n, fs'.stat (dir.join e) = .ok n ∧ n.isFile = false) →
      OnlyAdds config fs fs' dir

/-- The added entries of a directory that are skipped with a line, as far as they are reached. -/
def skippedAt (config : Config) (store : ObjectStore σ) (fs fs' : FileSystem)
    (round : Path × Session σ) : List Path :=
  ((obtained config store round.1 round.2).filter fun e => e ∉ listing fs round.1).flatMap
    (passedOver config fs' round.1)

/-- **The added entries that are skipped with a line** in a walk over the second disk. -/
def skipped (config : Config) (store : ObjectStore σ) (s s' : Session σ) : List Path :=
  (rounds (processDirectory config store) config.dirs (s'.withReport .zero)).flatMap
    (skippedAt config store s.disk s'.disk)

/-- A part of a list without repetitions is got back by asking which elements are in it. -/
theorem filter_eq_of_sublist {ι : Type} [DecidableEq ι] {l l' : List ι} (h : l.Sublist l')
    (distinct : l'.Nodup) : l'.filter (fun i => decide (i ∈ l)) = l := by
  have part := h.filter fun i => decide (i ∈ l)
  rw [List.filter_eq_self.2 fun i hi => decide_eq_true hi] at part
  have back : l'.filter (fun i => decide (i ∈ l)) ⊆ l :=
    fun i hi => of_decide_eq_true (List.mem_filter.1 hi).2
  exact (part.eq_of_length_le (List.subperm_of_subset (distinct.filter _) back).length_le).symm

/-! ## §2. One entry. -/

theorem passedOver_of_other {config : Config} {disk : FileSystem} {dir : Path} {entry : RawText}
    (other : ∀ name, ¬ IsCandidate config entry name) : passedOver config disk dir entry = [] := by
  unfold passedOver
  cases htext : entry.toString? with
  | none => rfl
  | some name => exact if_neg fun h => other name ⟨htext, h.1⟩

section walk

variable {r : Receiver σ} (undisturbed : r.LeavesDisk) {config : Config} {s s' : Session σ}
  (sound : s.disk.Sound) (sound' : s'.disk.Sound)
  (place : config.tarPrefixes ≠ [] → SameScratch s s' config)

section entry

variable {dir : Path} {entry : RawText}

include undisturbed sound sound' place in
/-- **An entry that both disks have** is taken in the same way. -/
theorem together_visit (step : entry.IsStep)
    (h : ∀ name, IsCandidate config entry name →
      LooksAlike s.disk s'.disk (dir.join entry)) :
    Together s s' (Outside s s') (Outside s s') (Outside s s')
      (visit config r.toObjectStore dir entry) := by
  unfold visit
  apply (Together.count Report.addEntry id fun _ => rfl).bind
  intro _
  cases htext : entry.toString? with
  | none => exact Together.pure ()
  | some name =>
    dsimp only
    split
    · next candidate =>
      intro skipped t t' alike
      have stat := stat_kept sound alike.disk.1 (dir.join entry)
      have stat' := stat_kept sound' alike.disk.2 (dir.join entry)
      rw [Work.perform_bind, Work.perform_bind, perform_lookAt, perform_lookAt, stat, stat']
      cases h name ⟨htext, candidate⟩ with
      | refused hstat hstat' =>
        rw [hstat, hstat']
        exact .error alike
      | @regular n hstat hstat' owner regular =>
        have same : SameFile s.disk s'.disk (dir.join entry) name n :=
          ⟨hstat, hstat', owner, regular, (archivable_of_stat step htext hstat regular).base⟩
        rw [hstat, hstat']
        dsimp only
        rw [if_pos regular]
        refine together_publish undisturbed config sound sound' same _ (fun tar => place ?_)
          skipped t t' alike
        -- A tar candidate starts with a prefix.
        intro none
        unfold Classification.ofName at tar
        rw [none] at tar
        cases tar
      | @other n n' hstat hstat' other other' =>
        rw [hstat, hstat']
        dsimp only
        rw [other, other']
        exact Together.log _ skipped t t' alike
    · exact Together.pure ()

include sound' in
/-- **An entry that was added** leaves a line if it is a candidate, and nothing else. -/
theorem alike_visit_added (store : ObjectStore σ)
    (h : ∀ name, IsCandidate config entry name →
      ∃ n, s'.disk.stat (dir.join entry) = .ok n ∧ n.isFile = false)
    {before : List Path} {t t' : Session σ} (alike : Alike s s' (Outside s s') before t t') :
    ∃ u', (visit config store dir entry).perform t' = (.ok (), u') ∧
      Alike s s' (Outside s s') (before ++ passedOver config s'.disk dir entry) t u' := by
  have counted : Alike s s' (Outside s s') before t { t' with report := t'.report.addEntry } :=
    ⟨alike.disk, alike.store, alike.report, alike.suffix, alike.suffix', alike.record⟩
  unfold visit
  rw [Work.perform_bind, Work.perform_count]
  dsimp only
  cases htext : entry.toString? with
  | none =>
    rw [passedOver_of_other (by simp [IsCandidate, htext]), List.append_nil]
    exact ⟨_, rfl, counted⟩
  | some name =>
    dsimp only
    cases candidate : (Classification.ofName config name).isCandidate with
    | false =>
      rw [passedOver_of_other (by simp [IsCandidate, htext, candidate]), List.append_nil]
      exact ⟨_, rfl, counted⟩
    | true =>
      obtain ⟨n, hstat, other⟩ := h name ⟨htext, candidate⟩
      have stat' := stat_kept sound' alike.disk.2 (dir.join entry)
      have line : passedOver config s'.disk dir entry = [dir.join entry] := by
        simp [passedOver, htext, candidate, hstat, Except.toOption, other]
      rw [if_pos rfl, Work.perform_bind, perform_lookAt]
      dsimp only
      rw [stat', hstat]
      dsimp only
      rw [other, line]
      exact ⟨_, rfl, alike.disk, alike.store, alike.report, alike.suffix, alike.suffix',
        alike.record.skip _⟩

end entry

/-! ## §3. Directories. -/

/-- Two runs end alike, with both disks as they were. -/
def EndsOutside {α : Type} (s s' : Session σ) (skipped : List Path)
    (x x' : Except Failure α × Session σ) : Prop :=
  EndsAlike (Alike s s' (Outside s s') skipped) (Alike s s' (Outside s s') skipped) x x'

include undisturbed sound sound' place

/-- **The entries of a directory**, of which `common` tells those that both disks have. -/
theorem alike_visits {dir : Path} (common : RawText → Bool) (entries : List RawText)
    (both : ∀ e ∈ entries, common e = true → e.IsStep ∧ ∀ name, IsCandidate config e name →
      LooksAlike s.disk s'.disk (dir.join e))
    (added : ∀ e ∈ entries, common e = false → ∀ name, IsCandidate config e name →
      ∃ n, s'.disk.stat (dir.join e) = .ok n ∧ n.isFile = false)
    {before : List Path} {t t' : Session σ} (alike : Alike s s' (Outside s s') before t t') :
    EndsOutside s s'
      (before ++
        ((begun (visit config r.toObjectStore dir) entries t').filter fun e => !common e).flatMap
          (passedOver config s'.disk dir))
      (((entries.filter common).forM (visit config r.toObjectStore dir)).perform t)
      ((entries.forM (visit config r.toObjectStore dir)).perform t') := by
  induction entries generalizing before t t' with
  | nil =>
    unfold begun
    rw [List.filter_nil, List.flatMap_nil, List.append_nil]
    exact .ok alike
  | cons e entries ih =>
    rw [List.forall_mem_cons] at both added
    unfold begun
    rw [Work.perform_forM_cons]
    cases known : common e with
    | true =>
      obtain ⟨step, looks⟩ := both.1 known
      have ends := together_visit undisturbed sound sound' place step looks before t t' alike
      rw [List.filter_cons_of_pos known, Work.perform_forM_cons]
      simp only [List.filter_cons, known, Bool.not_true, Bool.false_eq_true, if_false]
      generalize (visit config r.toObjectStore dir e).perform t = x at ends ⊢
      generalize (visit config r.toObjectStore dir e).perform t' = x' at ends ⊢
      cases ends with
      | ok left => exact ih both.2 added.2 left
      | error left =>
        rw [List.filter_nil, List.flatMap_nil, List.append_nil]
        exact .error left
    | false =>
      obtain ⟨u', hvisit, left⟩ :=
        alike_visit_added sound' r.toObjectStore (added.1 known) alike
      simp only [List.filter_cons, known, Bool.not_false, Bool.false_eq_true, if_false, if_true,
        List.flatMap_cons, hvisit, ← List.append_assoc]
      exact ih both.2 added.2 left

omit undisturbed sound sound' place in
/-- What is done before the first entry, as a function. -/
theorem perform_opening (dir : Path) (t : Session σ) :
    (opening dir).perform t =
      (match t.disk.readDirectory dir with
        | .ok l => .ok l
        | .error e => .error ((Failure.ofFile e).within (.readDirectory dir)),
        { t with
          events := t.events.push (.log (.scanning dir)), report := t.report.addDirectory }) := by
  unfold opening list
  rw [Work.perform_bind, Work.perform_log]
  dsimp only
  rw [Work.perform_bind, Work.perform_count]
  dsimp only
  rw [Work.perform_onDisk, Disk.perform_look]
  cases t.disk.readDirectory dir <;> rfl

omit undisturbed sound sound' place in
/-- **The end of a listing**, which is the same on both disks. -/
theorem together_readEnd {P : FileSystem → FileSystem → Prop} (dir : Path)
    (ending : Except FileError Unit) : Together s s' P P P (readEnd dir ending) := by
  intro before t t' alike
  rw [perform_readEnd, perform_readEnd]
  rcases ending with e | _
  · exact .error alike
  · exact .ok alike

/-- **A directory.** -/
theorem alike_processDirectory {dir : Path} (adds : OnlyAdds config s.disk s'.disk dir)
    {before : List Path} {t t' : Session σ} (alike : Alike s s' (Outside s s') before t t') :
    EndsOutside s s' (before ++ skippedAt config r.toObjectStore s.disk s'.disk (dir, t'))
      ((processDirectory config r.toObjectStore dir).perform t)
      ((processDirectory config r.toObjectStore dir).perform t') := by
  have listed := readDirectory_kept sound alike.disk.1 dir
  have listed' := readDirectory_kept sound' alike.disk.2 dir
  have opened : Alike s s' (Outside s s') before
      { t with events := t.events.push (.log (.scanning dir)), report := t.report.addDirectory }
      { t' with events := t'.events.push (.log (.scanning dir)),
                report := t'.report.addDirectory } :=
    ⟨alike.disk, alike.store, congrArg Report.addDirectory alike.report, alike.suffix,
      alike.suffix', alike.record.both _⟩
  rw [processDirectory_eq, Work.perform_bind, Work.perform_bind]
  unfold skippedAt obtained
  dsimp only
  rw [perform_opening, perform_opening, listed, listed']
  cases adds with
  | unlisted hlist hlist' =>
    rw [hlist, hlist']
    dsimp only
    rw [List.filter_nil, List.flatMap_nil, List.append_nil]
    exact .error opened
  | @listed l l' hlist hlist' part distinct ending both added =>
    have names : listing s.disk dir = l.names := by
      unfold listing
      rw [hlist]
      rfl
    have ends := alike_visits undisturbed sound sound' place (fun e => decide (e ∈ l.names)) l'.names
      (fun e _ known => ⟨isStep_of_readDirectory sound hlist e (of_decide_eq_true known),
        both e (of_decide_eq_true known)⟩)
      (fun e he new => added e he (of_decide_eq_false new)) opened
    rw [filter_eq_of_sublist part distinct] at ends
    simp only [← decide_not] at ends
    rw [hlist, hlist', names]
    dsimp only
    rw [filterMap_begun_items, forM_items, forM_items, ending]
    exact ends.bind fun _ u u' => together_readEnd dir l.ending _ u u'

/-- **The directories of a walk.** -/
theorem alike_directories (dirs : List Path)
    (adds : ∀ dir ∈ dirs, OnlyAdds config s.disk s'.disk dir) {before : List Path}
    {t t' : Session σ} (alike : Alike s s' (Outside s s') before t t') :
    EndsOutside s s'
      (before ++ (rounds (processDirectory config r.toObjectStore) dirs t').flatMap
        (skippedAt config r.toObjectStore s.disk s'.disk))
      ((dirs.forM (processDirectory config r.toObjectStore)).perform t)
      ((dirs.forM (processDirectory config r.toObjectStore)).perform t') := by
  induction dirs generalizing before t t' with
  | nil =>
    unfold rounds
    rw [List.flatMap_nil, List.append_nil]
    exact .ok alike
  | cons dir dirs ih =>
    rw [List.forall_mem_cons] at adds
    have ends := alike_processDirectory undisturbed sound sound' place adds.1 alike
    unfold rounds
    rw [List.flatMap_cons, ← List.append_assoc, Work.perform_forM_cons, Work.perform_forM_cons]
    generalize (processDirectory config r.toObjectStore dir).perform t = x at ends ⊢
    generalize (processDirectory config r.toObjectStore dir).perform t' = x' at ends ⊢
    cases ends with
    | ok left => exact ih adds.2 left
    | error left =>
      rw [List.flatMap_nil, List.append_nil]
      exact .error left

/-! ## §4. Entries of which there is no line. -/

omit undisturbed sound sound' place in
/-- What is obtained from a directory is listed there. -/
theorem mem_listing_of_mem_obtained {store : ObjectStore σ} {dir : Path} {t : Session σ}
    {e : RawText} (h : e ∈ obtained config store dir t) : e ∈ listing t.disk dir := by
  unfold obtained at h
  rw [perform_opening] at h
  unfold listing
  cases hlist : t.disk.readDirectory dir with
  | error e =>
    rw [hlist] at h
    cases h
  | ok l =>
    rw [hlist] at h
    dsimp only at h
    rw [filterMap_begun_items] at h
    have front := begun_prefix (visit config store dir) l.names
    exact (front _).subset h

omit sound place in
/-- Whenever a directory is begun, the disk is as it was. -/
theorem kept_of_mem_rounds (dirs : List Path) (hdirs : ∀ dir ∈ dirs, dir ∈ config.dirs)
    {t : Session σ} (kept : s'.disk.Kept t.disk) :
    ∀ round ∈ rounds (processDirectory config r.toObjectStore) dirs t,
      round.1 ∈ config.dirs ∧ s'.disk.Kept round.2.disk := by
  induction dirs generalizing t with
  | nil => exact fun _ h => absurd h List.not_mem_nil
  | cons dir dirs ih =>
    rw [List.forall_mem_cons] at hdirs
    unfold rounds
    rw [List.forall_mem_cons]
    refine ⟨⟨hdirs.1, kept⟩, ?_⟩
    rcases hround : (processDirectory config r.toObjectStore dir).perform t with ⟨_ | _, u⟩
    · exact fun _ h => absurd h List.not_mem_nil
    · have watched := watches_processDirectory undisturbed.toObjectStore config sound' hdirs.1
      exact ih hdirs.2 (watched.ok kept hround)

omit sound place in
/-- **Of entries that are no candidates there is no line.** -/
theorem skipped_eq_nil
    (others : ∀ dir ∈ config.dirs, ∀ e ∈ listing s'.disk dir, e ∉ listing s.disk dir →
      ∀ name, ¬ IsCandidate config e name) :
    skipped config r.toObjectStore s s' = [] := by
  apply List.flatMap_eq_nil_iff.2
  rintro ⟨dir, t⟩ hround
  obtain ⟨hdir, kept⟩ := kept_of_mem_rounds undisturbed sound' config.dirs (fun _ h => h)
    (t := s'.withReport .zero) (Kept.refl s'.disk) _ hround
  apply List.flatMap_eq_nil_iff.2
  intro e he
  obtain ⟨reached, new⟩ := List.mem_filter.1 he
  have listed : e ∈ listing s'.disk dir := by
    have there := mem_listing_of_mem_obtained reached
    unfold listing at there ⊢
    rwa [readDirectory_kept sound' kept] at there
  exact passedOver_of_other (others dir hdir e listed (of_decide_eq_true new))

end walk

/-! ## §5. The law. -/

/-- What comes of a walk is what comes of its directories, and the counters. -/
theorem perform_run (config : Config) (store : ObjectStore σ) (s : Session σ) :
    (run config store).perform s =
      match (config.dirs.forM (processDirectory config store)).perform (s.withReport .zero) with
      | (.ok _, t) => (.ok t.report, t)
      | (.error f, t) => (.error f, t) := by
  unfold run
  rw [Work.perform_bind, Work.perform_count]
  dsimp only
  rw [Work.perform_bind]
  unfold Session.withReport
  rcases (config.dirs.forM (processDirectory config store)).perform { s with report := .zero }
    with ⟨_ | _, t⟩ <;> rfl

/-- **What two walks have in common**: they hand over the same files, record the same but for the
lines about skipped files, end in the same way, and have the same in all counters but that of
the entries, and in the store. -/
structure SameWalk (s s' : Session σ) (skipped : List Path)
    (x x' : Except Failure Report × Session σ) : Prop where
  handovers : ∃ made,
    x.2.handovers = s.handovers ++ made ∧ x'.2.handovers = s'.handovers ++ made
  record : Interspersed s.events s'.events x.2.events skipped x'.2.events
  result : x'.1.map Report.withoutEntries = x.1.map Report.withoutEntries
  report : x'.2.report.withoutEntries = x.2.report.withoutEntries
  store : x'.2.store = x.2.store

/-- **What is not published is not noticed.**  Let the directories of a walk differ by other entries
only: entries that are no candidates, and candidates that lead to something other than a regular
file.  Then the walks over both disks have all in common but the counter of entries, and one line
for each of those candidates that is reached.  If no candidate was added, they record the
same. -/
theorem run_ignores_others (config : Config) {r : Receiver σ} (undisturbed : r.LeavesDisk)
    {s s' : Session σ} (sound : s.disk.Sound) (sound' : s'.disk.Sound)
    (store : s'.store = s.store) (place : config.tarPrefixes ≠ [] → SameScratch s s' config)
    (adds : ∀ dir ∈ config.dirs, OnlyAdds config s.disk s'.disk dir) :
    SameWalk s s' (skipped config r.toObjectStore s s')
      ((run config r.toObjectStore).perform s) ((run config r.toObjectStore).perform s') ∧
    ((∀ dir ∈ config.dirs, ∀ e ∈ listing s'.disk dir, e ∉ listing s.disk dir →
        ∀ name, ¬ IsCandidate config e name) →
      ∃ added,
        ((run config r.toObjectStore).perform s).2.events = s.events ++ added ∧
        ((run config r.toObjectStore).perform s').2.events = s'.events ++ added) := by
  have start : Alike s s' (Outside s s') [] (s.withReport .zero) (s'.withReport .zero) :=
    ⟨⟨Kept.refl _, Kept.refl _⟩, store, rfl, rfl, rfl, .start⟩
  have ends := alike_directories undisturbed sound sound' place config.dirs adds start
  rw [List.nil_append] at ends
  have same : SameWalk s s' (skipped config r.toObjectStore s s')
      ((run config r.toObjectStore).perform s) ((run config r.toObjectStore).perform s') := by
    rw [perform_run, perform_run]
    generalize (config.dirs.forM (processDirectory config r.toObjectStore)).perform
      (s.withReport .zero) = x at ends ⊢
    generalize (config.dirs.forM (processDirectory config r.toObjectStore)).perform
      (s'.withReport .zero) = x' at ends ⊢
    cases ends with
    | ok left =>
      exact ⟨left.record.handovers, left.record, congrArg Except.ok left.report, left.report,
        left.store⟩
    | error left => exact ⟨left.record.handovers, left.record, rfl, left.report, left.store⟩
  exact ⟨same, fun others => same.record.same (skipped_eq_nil undisturbed sound' others)⟩

/-- The names in the directory of the sample disk. -/
def sampleEntries : List RawText :=
  [RawText.ofString "b.wasm", ⟨[0xFF]⟩, RawText.ofString "a.wasm", RawText.ofString "c",
    RawText.ofString "b.d", RawText.ofString "a.json"]

/-- The same names with others in between. -/
def crowdedEntries : List RawText :=
  [⟨[0xFE]⟩, RawText.ofString "b.wasm", ⟨[0xFF]⟩, RawText.ofString "b.e", RawText.ofString "z",
    RawText.ofString "a.wasm", RawText.ofString "c", RawText.ofString "b.d",
    RawText.ofString "a.json", RawText.ofString "b.f"]

/-- The sample disk with more entries in its directory: a name that is no text, a dangling link, and
two directories that are called like candidates. -/
def crowdedDisk : FileSystem where
  nodes := #[
    ⟨.directory [⟨RawText.ofString "d", 1⟩, ⟨RawText.ofString "w", 4⟩] root,
      Node.directoryMode, 0⟩,
    ⟨.directory (crowdedEntries.zipWith DirEntry.mk [5, 2, 2, 4, 5, 3, 2, 4, 2, 4]) root,
      Node.directoryMode, 0⟩,
    Node.file (.ofBytes "bb".toUTF8),
    Node.file (.ofBytes "a".toUTF8),
    ⟨.directory [] root, Node.directoryMode, 0⟩,
    ⟨.symlink (Path.ofString "nowhere"), 0o777, 0⟩]
  workingDirectory := root
  workingPath := Path.ofString "/"
  tempPath := Path.ofString "/w"

/-- The same session with the crowded disk. -/
def crowdedSession : Session Nat := { sampleSession.withStore 0 with disk := crowdedDisk }

theorem looksAlike_sampleEntries :
    ∀ e ∈ sampleEntries, LooksAlike sampleDisk crowdedDisk ((Path.ofString "d").join e) := by
  unfold sampleEntries
  simp only [List.forall_mem_cons]
  refine ⟨?_, ?_, ?_, ?_, ?_, ?_, fun _ h => absurd h List.not_mem_nil⟩
  · exact .regular (n := Node.file (.ofBytes "bb".toUTF8)) (by cbv) (by cbv) (by cbv) rfl
  · exact .regular (n := Node.file (.ofBytes "bb".toUTF8)) (by cbv) (by cbv) (by cbv) rfl
  · exact .regular (n := Node.file (.ofBytes "a".toUTF8)) (by cbv) (by cbv) (by cbv) rfl
  · exact .regular (n := Node.file (.ofBytes "bb".toUTF8)) (by cbv) (by cbv) (by cbv) rfl
  · exact .other (n := ⟨.directory [] root, Node.directoryMode, 0⟩) (by cbv) (by cbv) rfl rfl
  · exact .regular (n := Node.file (.ofBytes "bb".toUTF8)) (by cbv) (by cbv) (by cbv) rfl

theorem onlyAdds_crowdedDisk :
    OnlyAdds sampleConfig sampleDisk crowdedDisk (Path.ofString "d") := by
  have listed : sampleDisk.listDirectory (Path.ofString "d") = .ok sampleEntries := by cbv
  have listed' : crowdedDisk.listDirectory (Path.ofString "d") = .ok crowdedEntries := by cbv
  refine .listed (listDirectory_eq_ok.1 listed) (listDirectory_eq_ok.1 listed') (by decide)
    (by decide) rfl (fun e he _ _ => looksAlike_sampleEntries e he) ?_
  have added : ∀ e ∈ crowdedEntries, e ∉ sampleEntries →
      e ∈ [⟨[0xFE]⟩, RawText.ofString "b.e", RawText.ofString "z", RawText.ofString "b.f"] :=
    of_decide_eq_true (by decide)
  have other : Classification.ofName sampleConfig "z" = ⟨false, false⟩ := by cbv
  rintro e he new name ⟨text, candidate⟩
  have which := added e he new
  simp only [List.mem_cons, List.not_mem_nil, or_false] at which
  rcases which with rfl | rfl | rfl | rfl
  · cases text
  · exact ⟨⟨.directory [] root, Node.directoryMode, 0⟩, by cbv, rfl⟩
  · rw [RawText.toString?_ofString] at text
    cases text
    rw [other] at candidate
    cases candidate
  · exact ⟨⟨.directory [] root, Node.directoryMode, 0⟩, by cbv, rfl⟩

/-- Before the archive of `a.wasm` is refused, one of the two directories that were added is
reached. -/
theorem skipped_crowdedSession :
    skipped sampleConfig sampleReceiver.toObjectStore (sampleSession.withStore 0) crowdedSession
      = [Path.ofString "d/b.e"] := by
  delta skipped skippedAt obtained processDirectory takeEntry visit publish publishTar publishGzip
    publishTarGz Compression.gzipFile Compression.tarGzFile Compression.writeCompressed
    Compression.writeRemains
  dsimp only
  generalize Gzip.encodePieces = encode
  generalize Compression.memberPieces = pieces
  generalize Compression.refusal = refusal
  cbv

/-- Two walks that are refused an archive, over the sample disk and over the crowded one. -/
theorem run_ignores_others_at_refusal :
    sampleReceiver.LeavesDisk ∧ sampleDisk.Sound ∧ crowdedDisk.Sound ∧
    SameScratch (sampleSession.withStore 0) crowdedSession sampleConfig ∧
    (∀ dir ∈ sampleConfig.dirs, OnlyAdds sampleConfig sampleDisk crowdedDisk dir) ∧
    SameWalk (sampleSession.withStore 0) crowdedSession [Path.ofString "d/b.e"]
      ((run sampleConfig sampleReceiver.toObjectStore).perform (sampleSession.withStore 0))
      ((run sampleConfig sampleReceiver.toObjectStore).perform crowdedSession) := by
  have sound : sampleDisk.Sound := by decide
  have sound' : crowdedDisk.Sound := by decide
  have store : crowdedSession.store = (sampleSession.withStore 0).store := rfl
  have place : SameScratch (sampleSession.withStore 0) crowdedSession
      sampleConfig := by cbv
  have adds : ∀ dir ∈ sampleConfig.dirs,
      OnlyAdds sampleConfig sampleDisk crowdedDisk dir := by
    intro dir hdir
    cases List.mem_singleton.1 hdir
    exact onlyAdds_crowdedDisk
  obtain ⟨law, -⟩ := run_ignores_others sampleConfig sampleReceiver_leavesDisk sound sound' store
    (fun _ => place) adds
  rw [skipped_crowdedSession] at law
  exact ⟨sampleReceiver_leavesDisk, sound, sound', place, adds, law⟩

end ArtifactCourier.Walk
