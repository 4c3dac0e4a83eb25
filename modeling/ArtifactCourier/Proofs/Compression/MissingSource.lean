/-
  ArtifactCourier.Proofs.Compression.MissingSource
  ──────────────────────────────────────
  **What becomes of a copy whose source is missing.**

  A gzip copy looks at its source first, so if there is none nothing happens.  An archive is
  begun first: by the time the source is found missing, the place of the copy has been made or
  emptied, and an archive without members is left there.  If that place is where the source
  should have been, the source is even there by then, and it is archived as an empty file.

    • `begunArchive` — what is left of an archive that got no member,
    • `tarGzFile_of_missing` — what is left in the place of the copy,
    • `missing_source_copies` — the law,
    • `missing_source_costs_copy` — an older copy that is lost.
-/
import ArtifactCourier.Proofs.Compression.TarGzCopy
import ArtifactCourier.Proofs.FileSystem.Created
import ArtifactCourier.Proofs.FileSystem.ScratchContents
import ArtifactCourier.Proofs.Tar.LongNames

namespace ArtifactCourier.Compression

open FileSystem

variable {fs opened : FileSystem} {source dest : Path} {output : NodeId} {base : RawText}

/-! ## §1. Gzip copies. -/

/-- **A gzip copy of a missing file** is refused before anything is changed. -/
theorem gzipFile_of_missing (missing : fs.doesExist source = false) :
    ∃ e, (gzipFile source dest).perform fs
      = (.error ((Failure.ofFile e).within (.openToCompress source)), fs) := by
  obtain ⟨e, refused⟩ := openRead_of_missing missing
  refine ⟨e, ?_⟩
  unfold gzipFile
  rw [Disk.perform_bind, Disk.perform_look, refused]

/-! ## §2. Archives. -/

/-- What is left of an archive that was begun and got no member. -/
def begunArchive : ByteArray := Gzip.encode (Tar.archive [])

/-- **It is a whole archive**, with nothing in it. -/
theorem begunArchive_empty :
    Gzip.Member begunArchive (Tar.archive []) ∧ Tar.members? (Tar.archive []) = some [] := by
  refine ⟨Gzip.member_encode _, ?_⟩
  have none : ∀ m ∈ ([] : List Tar.Member), m.Stated := by simp
  unfold Tar.members?
  rw [Tar.records?_archive none]
  rfl

/-- An archive needs a name for its member. -/
theorem tarGzFile_of_noName (none : source.fileName? = none) :
    (tarGzFile source dest).perform fs = (.error (.ofProblem (.noFileName source)), fs) := by
  unfold tarGzFile
  rw [none]
  rfl

/-- It needs a place. -/
theorem tarGzFile_of_notOpened {e : FileError} (hbase : source.fileName? = some base)
    (refused : fs.openWrite dest = .error e) :
    (tarGzFile source dest).perform fs
      = (.error ((Failure.ofFile e).within (.create dest)), fs) := by
  unfold tarGzFile
  rw [hbase]
  dsimp only
  rw [Disk.perform_bind, Disk.perform_change, refused]

/-- An archive that was begun and is refused its member is ended as it is. -/
theorem tarGzFile_of_refused {refusal : Tar.Refusal} (hbase : source.fileName? = some base)
    (hopen : fs.openWrite dest = .ok (output, opened))
    (refused : archiveMembers opened source base = .error refusal) :
    (tarGzFile source dest).perform fs
      = (.error ((Failure.ofProblem refusal.problem).within (.addMember source)),
        (opened.writeAll output (Gzip.encode (Tar.archive refusal.written))).toOption.getD
          opened) := by
  unfold tarGzFile
  rw [hbase]
  dsimp only
  rw [Disk.perform_bind, Disk.perform_change, hopen]
  dsimp only
  rw [Disk.perform_bind, Disk.perform_get]
  dsimp only
  rw [refused]
  dsimp only
  rw [Disk.perform_bind, perform_writeRemains, joined_archive]
  rfl

/-- Nothing is archived of what cannot be looked at. -/
theorem archiveMembers_of_error {e : FileError} (hstat : fs.stat source = .error e) :
    archiveMembers fs source base = .error ⟨.memberMetadata e source, []⟩ := by
  unfold archiveMembers
  rw [hstat]

section missing

variable (sound : fs.Sound) (missing : fs.doesExist source = false)

include missing

/-- **Where no regular file can be, nothing is lost.** -/
theorem tarGzFile_of_not_canWriteFile (cannot : ¬ fs.CanWriteFile dest) :
    ∃ f, (tarGzFile source dest).perform fs = (.error f, fs) := by
  cases hbase : source.fileName? with
  | none => exact ⟨_, tarGzFile_of_noName hbase⟩
  | some base =>
    rcases hopen : fs.openWrite dest with e | ⟨output, opened⟩
    · exact ⟨_, tarGzFile_of_notOpened hbase hopen⟩
    obtain ⟨rfl, keeps⟩ := opened_of_not_canWriteFile cannot hopen
    obtain ⟨e, hstat⟩ := stat_of_missing missing
    have refused := tarGzFile_of_refused hbase hopen (archiveMembers_of_error hstat)
    rw [keeps] at refused
    exact ⟨_, refused⟩

include sound

/-- **Where a regular file can be, it is written anew**, whatever was there: with an archive of
nothing, unless the place is where the source should have been.  There the source is the file
that was made for the copy, and it is archived as an empty file if its name allows. -/
theorem tarGzFile_of_missing (hbase : source.fileName? = some base) (can : fs.CanWriteFile dest) :
    ∃ r fs' member, (tarGzFile source dest).perform fs = (r, fs') ∧
      fs.writeFile dest member = .ok fs' ∧ fs'.bytesAt dest = .ok member ∧
      (fs.resolve source true ≠ fs.resolve dest true → member = begunArchive ∧
        ∃ e, r = .error ((Failure.ofProblem (.memberMetadata e source)).within
          (.addMember source))) ∧
      (fs.resolve source true = fs.resolve dest true → fs.doesExist dest = false ∧
        (r = .ok () ↔ ∃ stored, Tar.MemberName.ofPath ⟨base⟩ = .ok stored) ∧
        (r = .ok () → ∃ stream, Gzip.Member member stream ∧
          Tar.Archives stream base (Node.file .empty) .empty)) := by
  have found : ∀ {member fs'}, fs.writeFile dest member = .ok fs' →
      fs'.bytesAt dest = .ok member := fun written => bytesAt_of_writeFile written can
  obtain ⟨output, opened, old, hopen, hkind⟩ := can
  have written := writeFile_of_file hopen hkind
  by_cases own : fs.resolve source true = fs.resolve dest true
  · -- What is looked at is the file that was made for the copy.
    have hstat := (stat_openWrite_of_missing sound missing hopen).2 ⟨own, rfl⟩
    have free : fs.doesExist dest = false := by
      unfold doesExist at missing ⊢
      rwa [← stat_congr own]
    have archivable : (∃ members, Tar.membersOf source base (Node.file .empty)
          (opened.ownerAt source) = .ok members) ↔
        ∃ stored, Tar.MemberName.ofPath ⟨base⟩ = .ok stored :=
      Tar.exists_membersOf_iff source _ rfl
    cases made : archiveMembers opened source base with
    | ok members =>
      have hmembers := (archiveMembers_eq_ok hstat).1 made
      have hrun := tarGzFile_eq_ok.2 ⟨base, output, opened, members, hbase, hopen, made,
        writeAll_of_file hkind _⟩
      refine ⟨_, _, _, hrun, written _, found (written _), absurd own,
        fun _ => ⟨free, ?_, fun _ => ?_⟩⟩
      · exact iff_of_true rfl (archivable.1 ⟨members, hmembers⟩)
      · obtain ⟨step, within⟩ := Path.isStep_of_fileName? hbase
        obtain ⟨file, hlocate, -⟩ := stat_eq_ok.1 hstat
        obtain ⟨plain, short⟩ := plain_of_checkPath (resolve_eq_ok.1 (locate_eq_ok.1 hlocate)).1
        have reported : (Node.file .empty).Reported := ⟨by decide, by decide, by decide⟩
        exact ⟨_, Gzip.member_encode _, Tar.archives_of_file rfl reported step
          (Nat.lt_of_le_of_lt within.length_le short) hmembers fun zero => plain (within.mem zero)⟩
    | error refusal =>
      have hrun := tarGzFile_of_refused hbase hopen made
      rw [writeAll_of_file hkind] at hrun
      refine ⟨_, _, _, hrun, written _, found (written _), absurd own, fun _ => ⟨free, ?_, nofun⟩⟩
      refine iff_of_false nofun fun stored => ?_
      obtain ⟨members, hmembers⟩ := archivable.2 stored
      cases made.symm.trans ((archiveMembers_eq_ok hstat).2 hmembers)
  · -- The source is still missing.
    obtain ⟨e, hstat⟩ : ∃ e, opened.stat source = .error e := by
      cases hstat : opened.stat source with
      | error e => exact ⟨e, rfl⟩
      | ok n => exact absurd ((stat_openWrite_of_missing sound missing hopen).1 hstat).1 own
    have hrun := tarGzFile_of_refused hbase hopen (archiveMembers_of_error hstat)
    rw [writeAll_of_file hkind] at hrun
    exact ⟨_, _, begunArchive, hrun, written _, found (written _), fun _ => ⟨rfl, e, rfl⟩,
      fun same => absurd same own⟩

/-- **What is at the place of the copy is lost**, if the source has a base name: it is then an
archive of nothing, and changed unless it was one before. -/
theorem tarGzFile_over_file {n : Node} (hstat : fs.stat dest = .ok n) (regular : n.isFile = true)
    (named : source.fileName? ≠ none) :
    ∃ f fs', (tarGzFile source dest).perform fs = (.error f, fs') ∧
      fs'.bytesAt dest = .ok begunArchive ∧
      (fs' = fs ↔ n.kind = .file (.ofBytes begunArchive)) := by
  obtain ⟨base, hbase⟩ := Option.ne_none_iff_exists'.1 named
  have can := canWriteFile_of_stat hstat regular
  -- Where there is something, the source should not have been.
  have apart : fs.resolve source true ≠ fs.resolve dest true := by
    intro same
    obtain ⟨e, hsource⟩ := stat_of_missing missing
    rw [stat_congr same, hstat] at hsource
    cases hsource
  obtain ⟨r, fs', member, hrun, written, found, begun, -⟩ :=
    tarGzFile_of_missing sound missing hbase can
  obtain ⟨rfl, e, rfl⟩ := begun apart
  refine ⟨_, fs', hrun, found, ?_⟩
  have same := @writeFile_eq_self_iff fs dest can begunArchive
  rw [written, Except.ok.injEq] at same
  rw [same]
  constructor
  · rintro ⟨n', hstat', holds⟩
    cases hstat.symm.trans hstat'
    exact holds
  · exact fun holds => ⟨n, hstat, holds⟩

/-- **When an archive is refused without a trace.** -/
theorem tarGzFile_untouched_iff :
    (∃ f, (tarGzFile source dest).perform fs = (.error f, fs)) ↔
      source.fileName? = none ∨ ¬ fs.CanWriteFile dest ∨
        ∃ n, fs.stat dest = .ok n ∧ n.kind = .file (.ofBytes begunArchive) := by
  constructor
  · rintro ⟨f, hrun⟩
    cases hbase : source.fileName? with
    | none => exact .inl rfl
    | some base =>
      by_cases can : fs.CanWriteFile dest
      · -- The place was written anew, so it held what was written.
        obtain ⟨r, fs', member, hrun', written, -⟩ := tarGzFile_of_missing sound missing hbase can
        obtain ⟨-, rfl⟩ := Prod.mk.inj (hrun.symm.trans hrun')
        obtain ⟨n, hstat, holds⟩ := (writeFile_eq_self_iff can).1 written
        have regular : n.isFile = true := by rw [Node.isFile, holds]
        obtain ⟨f', fs'', hrun', -, same⟩ := tarGzFile_over_file sound missing hstat regular
          (by rw [hbase]; exact Option.some_ne_none _)
        obtain ⟨-, rfl⟩ := Prod.mk.inj (hrun.symm.trans hrun')
        exact .inr (.inr ⟨n, hstat, same.1 rfl⟩)
      · exact .inr (.inl can)
  · intro spared
    by_cases named : source.fileName? = none
    · exact ⟨_, tarGzFile_of_noName named⟩
    · rcases spared with none | cannot | ⟨n, hstat, holds⟩
      · exact absurd none named
      · exact tarGzFile_of_not_canWriteFile missing cannot
      · have regular : n.isFile = true := by rw [Node.isFile, holds]
        obtain ⟨f, fs', hrun, -, same⟩ := tarGzFile_over_file sound missing hstat regular named
        rw [same.2 holds] at hrun
        exact ⟨f, hrun⟩

/-! ## §3. The law. -/

/-- **What becomes of the copies of a missing file.**  A gzip copy is refused, and the disk is as it
was.  An archive is refused with the disk as it was only if the source has no base name, or no
regular file can be at the place of the copy, or what is there is an archive of nothing.  So a
file at the place of the copy is lost whenever the source has a base name.  In all other cases
the place is written anew: with an archive of nothing, and a refusal; or, if nothing was there
and the source should have been there itself, with an archive of an empty file, and no refusal
if the name can be that of a member. -/
theorem missing_source_copies :
    (∃ e, (gzipFile source dest).perform fs
      = (.error ((Failure.ofFile e).within (.openToCompress source)), fs)) ∧
    ((∃ f, (tarGzFile source dest).perform fs = (.error f, fs)) ↔
      source.fileName? = none ∨ ¬ fs.CanWriteFile dest ∨
        ∃ n, fs.stat dest = .ok n ∧ n.kind = .file (.ofBytes begunArchive)) ∧
    (∀ n, fs.stat dest = .ok n → n.isFile = true → source.fileName? ≠ none →
      ∃ f fs', (tarGzFile source dest).perform fs = (.error f, fs') ∧
        fs'.bytesAt dest = .ok begunArchive ∧
        (fs' = fs ↔ n.kind = .file (.ofBytes begunArchive))) ∧
    (∀ base, source.fileName? = some base → fs.CanWriteFile dest →
      ∃ r fs' member, (tarGzFile source dest).perform fs = (r, fs') ∧
        fs.writeFile dest member = .ok fs' ∧ fs'.bytesAt dest = .ok member ∧
        (fs.resolve source true ≠ fs.resolve dest true → member = begunArchive ∧
          ∃ e, r = .error ((Failure.ofProblem (.memberMetadata e source)).within
            (.addMember source))) ∧
        (fs.resolve source true = fs.resolve dest true → fs.doesExist dest = false ∧
          (r = .ok () ↔ ∃ stored, Tar.MemberName.ofPath ⟨base⟩ = .ok stored) ∧
          (r = .ok () → ∃ stream, Gzip.Member member stream ∧
            Tar.Archives stream base (Node.file .empty) .empty))) ∧
    Gzip.Member begunArchive (Tar.archive []) ∧ Tar.members? (Tar.archive []) = some [] :=
  ⟨gzipFile_of_missing missing, tarGzFile_untouched_iff sound missing,
    fun _ hstat regular named => tarGzFile_over_file sound missing hstat regular named,
    fun _ hbase can => tarGzFile_of_missing sound missing hbase can, begunArchive_empty⟩

end missing

/-! ## §4. A copy that is lost. -/

/-- A disk with a link that leads to itself and an older file in the place of the copy. -/
def lostDisk : FileSystem where
  nodes := #[
    ⟨.directory [⟨RawText.ofString "loop", 1⟩, ⟨RawText.ofString "o", 2⟩] FileSystem.root,
      Node.directoryMode, 0⟩,
    ⟨.symlink (Path.ofString "loop"), 0o777, 0⟩,
    Node.file (.ofBytes (ByteArray.mk #[9, 9]))]
  workingDirectory := FileSystem.root
  workingPath := Path.ofString "/"
  tempPath := Path.ofString "/"

theorem sound_lostDisk : lostDisk.Sound := by decide

theorem stat_lostDisk : lostDisk.stat (Path.ofString "o")
    = .ok (Node.file (.ofBytes (ByteArray.mk #[9, 9]))) := by cbv

theorem missing_lostDisk : lostDisk.doesExist (Path.ofString "z") = false := by cbv

theorem named_lostDisk : (Path.ofString "z").fileName? = some (RawText.ofString "z") := by cbv

/-- The copies of the link that leads to itself, and an archive in the place of its own source. -/
theorem missing_source_copies_loop :
    lostDisk.Sound ∧ lostDisk.doesExist (Path.ofString "loop") = false ∧
    lostDisk.doesExist (Path.ofString "z") = false ∧
    (∃ f, (gzipFile (Path.ofString "loop") (Path.ofString "o")).perform lostDisk
      = (.error f, lostDisk)) ∧
    (∃ f fs', (tarGzFile (Path.ofString "loop") (Path.ofString "o")).perform lostDisk
        = (.error f, fs') ∧ fs'.bytesAt (Path.ofString "o") = .ok begunArchive) ∧
    ∃ fs', (tarGzFile (Path.ofString "z") (Path.ofString "z")).perform lostDisk
      = (.ok (), fs') := by
  have missing : lostDisk.doesExist (Path.ofString "loop") = false := by cbv
  have named : (Path.ofString "loop").fileName? = some (RawText.ofString "loop") := by cbv
  obtain ⟨⟨e, untouched⟩, -, anyway, -⟩ :=
    @missing_source_copies lostDisk _ (Path.ofString "o") sound_lostDisk missing
  obtain ⟨f, fs', hrun, found, -⟩ :=
    anyway _ stat_lostDisk rfl (by rw [named]; exact Option.some_ne_none _)
  refine ⟨sound_lostDisk, missing, missing_lostDisk, ⟨_, untouched⟩, ⟨f, fs', hrun, found⟩, ?_⟩
  have can : lostDisk.CanWriteFile (Path.ofString "z") :=
    ⟨3, (lostDisk.create FileSystem.root (RawText.ofString "z") (Node.file .empty)).2, .empty,
      by cbv, by cbv⟩
  obtain ⟨-, -, -, anew, -⟩ :=
    @missing_source_copies lostDisk _ (Path.ofString "z") sound_lostDisk missing_lostDisk
  obtain ⟨r, fs', member, hrun, -, -, -, own⟩ := anew _ named_lostDisk can
  obtain ⟨-, archived, -⟩ := own rfl
  have hname : ∃ stored, Tar.MemberName.ofPath ⟨RawText.ofString "z"⟩ = .ok stored :=
    ⟨⟨(RawText.ofString "z").bytes, none⟩, by cbv⟩
  rw [archived.2 hname] at hrun
  exact ⟨fs', hrun⟩

theorem le_size_encode (data : ByteArray) : 10 ≤ (Gzip.encode data).size := by
  have size : Gzip.header.size = 10 := by decide
  rw [Gzip.encode, ByteArray.size_append, ByteArray.size_append, size]
  omega

/-- **A missing source costs an older copy**: the archive of `z`, which is not there, is refused,
and two bytes that were in its place are gone. -/
theorem missing_source_costs_copy :
    lostDisk.doesExist (Path.ofString "z") = false ∧
    lostDisk.bytesAt (Path.ofString "o") = .ok (ByteArray.mk #[9, 9]) ∧
    ∃ f fs', (tarGzFile (Path.ofString "z") (Path.ofString "o")).perform lostDisk
        = (.error f, fs') ∧
      fs'.bytesAt (Path.ofString "o") = .ok begunArchive ∧
      begunArchive ≠ ByteArray.mk #[9, 9] ∧ fs' ≠ lostDisk := by
  have held : lostDisk.bytesAt (Path.ofString "o") = .ok (ByteArray.mk #[9, 9]) := by cbv
  obtain ⟨f, fs', hrun, found, -⟩ := tarGzFile_over_file sound_lostDisk missing_lostDisk
    stat_lostDisk rfl (by rw [named_lostDisk]; exact Option.some_ne_none _)
  have other : begunArchive ≠ ByteArray.mk #[9, 9] := by
    intro same
    have size : 10 ≤ begunArchive.size := le_size_encode _
    rw [same] at size
    exact absurd size (by decide)
  refine ⟨missing_lostDisk, held, f, fs', hrun, found, other, ?_⟩
  rintro rfl
  exact other (Except.ok.inj (found.symm.trans held))

end ArtifactCourier.Compression
