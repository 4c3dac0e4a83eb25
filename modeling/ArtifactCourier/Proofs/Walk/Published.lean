/-
  ArtifactCourier.Proofs.Walk.Published
  ──────────────────────────────────────
  **Published artifacts belong to their file.**

  What a candidate is published as can be turned back into the candidate: its gzip copy
  decompresses to its bytes, and its archive has it as the only member.  After a walk this is
  what is found at its keys, unless a candidate that was listed later has a key in common with
  it; then the later one is found there.

    • `GzipOf`, `ArchiveOf` — objects that a file can be got back from,
    • `uploadsOf_tar`, `uploadsOf_plain` — what a candidate is uploaded as,
    • `Unclaimed` — no later candidate has a key,
    • `run_publishes` — the law, and `not_always_published` — why it needs that condition.
-/
import ArtifactCourier.Proofs.Gzip
import ArtifactCourier.Proofs.Tar.Members
import ArtifactCourier.Proofs.Walk.OrderIndependent

namespace ArtifactCourier.Walk

open Store FileSystem

variable {σ : Type}

/-! ## §1. Artifacts. -/

/-- At a key there are the bytes of a file. -/
def BytesOf (object : String → Option ByteArray) (key : String) (bytes : ByteArray) : Prop :=
  object key = some bytes

/-- At a key there is a gzip member of the bytes of a file. -/
def GzipOf (object : String → Option ByteArray) (key : String) (bytes : ByteArray) : Prop :=
  ∃ gzip, object key = some gzip ∧ Gzip.decode? gzip = some bytes

/-- At a key there is a gzip member of an archive whose only member is a file of that name. -/
def ArchiveOf (object : String → Option ByteArray) (key : String) (name : List UInt8)
    (bytes : ByteArray) : Prop :=
  ∃ tarGz archive member, object key = some tarGz ∧ Gzip.decode? tarGz = some archive ∧
    Tar.members? archive = some [member] ∧ member.name = name ∧
    member.flag = Tar.MemberKind.file.flag ∧ member.data = bytes

section mono

variable {object object' : String → Option ByteArray} {key : String} {bytes : ByteArray}

theorem GzipOf.mono (h : GzipOf object key bytes)
    (kept : ∀ b, object key = some b → object' key = some b) : GzipOf object' key bytes := by
  obtain ⟨gzip, there, unzipped⟩ := h
  exact ⟨gzip, kept gzip there, unzipped⟩

theorem ArchiveOf.mono {name : List UInt8} (h : ArchiveOf object key name bytes)
    (kept : ∀ b, object key = some b → object' key = some b) :
    ArchiveOf object' key name bytes := by
  obtain ⟨tarGz, archive, member, there, extracted⟩ := h
  exact ⟨tarGz, archive, member, kept tarGz there, extracted⟩

end mono

variable {config : Config} {fs : FileSystem} {dir : Path} {entry : RawText} {n : Node}
  {content : Content}

/-- The bytes of a path end in the name of the entry it leads to. -/
theorem suffix_join (dir : Path) {name : RawText} (hname : Path.slash ∉ name.bytes) :
    name.bytes <:+ (dir.join name).bytes := by
  by_cases hdir : dir.bytes = []
  · unfold Path.join
    rw [if_pos (Or.inr hdir)]
    exact List.suffix_refl _
  · rw [Path.bytes_join hdir hname]
    split
    · exact List.suffix_append _ _
    · exact (List.suffix_cons _ _).trans (List.suffix_append _ _)

/-- The name of an entry that leads somewhere is no stranger to the operating system. -/
theorem name_of_stat (step : entry.IsStep) (hstat : fs.stat (dir.join entry) = .ok n) :
    0 ∉ entry.bytes ∧ entry.bytes.length < maxPathLength := by
  obtain ⟨id, hlocate, -⟩ := stat_eq_ok.1 hstat
  obtain ⟨plain, short⟩ := plain_of_checkPath (resolve_eq_ok.1 (locate_eq_ok.1 hlocate)).1
  have within := suffix_join dir step.2
  exact ⟨fun zero => plain (within.subset zero), Nat.lt_of_le_of_lt within.length_le short⟩

/-- **The archive of a regular file can be extracted to it.** -/
theorem tarGzOf_archive (step : entry.IsStep) (hstat : fs.stat (dir.join entry) = .ok n)
    (regular : n.kind = .file content) (fits : content.size < UInt64.size) {tarGz : ByteArray}
    (h : Compression.tarGzOf fs (dir.join entry) = some tarGz) :
    ∃ archive member, Gzip.decode? tarGz = some archive ∧
      Tar.members? archive = some [member] ∧ member.name = entry.bytes ∧
      member.flag = Tar.MemberKind.file.flag ∧ member.data = content.bytes := by
  obtain ⟨plain, short⟩ := name_of_stat step hstat
  have base := Path.fileName?_join dir (Tar.stepOf_of_isStep step) step.2
  have named_shortly : entry.bytes.length + 1 < Tar.maxNumber :=
    Nat.lt_of_le_of_lt short (by decide)
  have sized : content.size < Tar.maxNumber := Nat.lt_trans fits (by decide)
  unfold Compression.tarGzOf at h
  rw [base] at h
  obtain ⟨_, ⟨rfl⟩, h⟩ := Option.bind_eq_some_iff.1 h
  obtain ⟨members, hmembers, h⟩ := Option.bind_eq_some_iff.1 h
  cases h
  unfold Compression.archiveMembers at hmembers
  rw [hstat] at hmembers
  dsimp only at hmembers
  cases made : Tar.membersOf (dir.join entry) entry n (fs.ownerAt (dir.join entry)) with
  | error refusal =>
    rw [made] at hmembers
    cases hmembers
  | ok archived =>
    rw [made] at hmembers
    cases hmembers
    obtain ⟨mode, mtime, extracted⟩ :=
      Tar.members?_of_file regular step named_shortly sized made plain
    exact ⟨_, _, Gzip.decode?_encode _, extracted, rfl, rfl, rfl⟩

/-! ## §2. What a candidate is uploaded as. -/

variable {uploads : List (String × ByteArray)}

theorem destinationKey_gzipName (uploadDir name : String) :
    destinationKey uploadDir (gzipName name) = destinationKey uploadDir name ++ ".gz" := by
  unfold destinationKey gzipName Defaults.gzipExtension
  rw [← String.append_assoc]

theorem destinationKey_tarGzName (uploadDir name : String) :
    destinationKey uploadDir (tarGzName name) = destinationKey uploadDir name ++ ".tar.gz" := by
  unfold destinationKey tarGzName Defaults.tarGzExtension
  rw [← String.append_assoc]

/-- What a path to a regular file gives. -/
theorem bytesAt_of_stat {file : Path} (hstat : fs.stat file = .ok n)
    (regular : n.kind = .file content) : fs.bytesAt file = .ok content.bytes := by
  obtain ⟨id, hlocate, hnode⟩ := stat_eq_ok.1 hstat
  obtain ⟨kind, mode, mtime⟩ := n
  cases regular
  exact bytesAt_of_file hlocate hnode

/-- **A tar candidate is uploaded as three artifacts** that it can be got back from. -/
theorem tarUploads_artifacts {key : String} (step : entry.IsStep)
    (hstat : fs.stat (dir.join entry) = .ok n) (regular : n.kind = .file content)
    (fits : content.size < UInt64.size) (h : tarUploads fs (dir.join entry) key = some uploads) :
    BytesOf (lastWrite uploads) key content.bytes ∧
      GzipOf (lastWrite uploads) (key ++ ".gz") content.bytes ∧
      ArchiveOf (lastWrite uploads) (key ++ ".tar.gz") entry.bytes content.bytes := by
  obtain ⟨bytes, tarGz, hbytes, htarGz, rfl⟩ := tarUploads_eq_some.1 h
  obtain rfl : content.bytes = bytes := by
    rw [bytesAt_of_stat hstat regular] at hbytes
    cases hbytes
    rfl
  obtain ⟨archive, member, unzipped, extracted⟩ := tarGzOf_archive step hstat regular fits htarGz
  refine ⟨?_, ⟨Gzip.encode content.bytes, ?_, Gzip.decode?_encode _⟩,
    ⟨tarGz, archive, member, ?_, unzipped, extracted⟩⟩
  · simp [BytesOf, lastWrite]
  · simp [lastWrite]
  · simp [lastWrite]

/-- A candidate that is published as it is. -/
theorem plainUploads_artifacts {key : String} (hstat : fs.stat (dir.join entry) = .ok n)
    (regular : n.kind = .file content) (h : plainUploads fs (dir.join entry) key = some uploads) :
    uploads = [(key, content.bytes)] := by
  obtain ⟨bytes, hbytes, rfl⟩ := plainUploads_eq_some.1 h
  rw [bytesAt_of_stat hstat regular] at hbytes
  cases hbytes
  rfl

section candidate

variable {name : String} (text : entry.toString? = some name)
  (hstat : fs.stat (dir.join entry) = .ok n) (regular : n.kind = .file content)
  (h : uploadsOf config fs dir entry = some uploads)

include text hstat regular h

/-- The uploads of a candidate: as a tar candidate, and behind them as a plain one. -/
theorem uploadsOf_candidate (candidate : (Classification.ofName config name).isCandidate = true) :
    ∃ forms asIs, uploads = forms ++ asIs ∧
      ((Classification.ofName config name).tar = true →
        tarUploads fs (dir.join entry) (destinationKey config.uploadDir name) = some forms) ∧
      ((Classification.ofName config name).plain = true →
        asIs = [(destinationKey config.uploadDir name, content.bytes)]) ∧
      ((Classification.ofName config name).plain = false → asIs = []) := by
  have isFile : (fs.stat (dir.join entry)).toOption.any Node.isFile = true := by
    rw [hstat]
    show n.isFile = true
    rw [Node.isFile, regular]
  rw [uploadsOf_eq, text] at h
  dsimp only at h
  rw [if_pos ⟨candidate, isFile⟩] at h
  obtain ⟨forms, hforms, h⟩ := Option.bind_eq_some_iff.1 h
  obtain ⟨asIs, hasIs, h⟩ := Option.bind_eq_some_iff.1 h
  cases h
  refine ⟨forms, asIs, rfl, ?_, ?_, ?_⟩
  · intro htar
    rwa [if_pos htar] at hforms
  · intro hplain
    rw [if_pos hplain] at hasIs
    exact plainUploads_artifacts hstat regular hasIs
  · intro hplain
    rw [hplain] at hasIs
    cases hasIs
    rfl

/-- **A tar candidate can be got back from its uploads**, also if it is published as it is once
more. -/
theorem uploadsOf_tar (step : entry.IsStep) (fits : content.size < UInt64.size)
    (htar : (Classification.ofName config name).tar = true) :
    BytesOf (lastWrite uploads) (destinationKey config.uploadDir name) content.bytes ∧
      GzipOf (lastWrite uploads) (destinationKey config.uploadDir (gzipName name)) content.bytes ∧
      ArchiveOf (lastWrite uploads) (destinationKey config.uploadDir (tarGzName name)) entry.bytes
        content.bytes := by
  have candidate : (Classification.ofName config name).isCandidate = true := by
    rw [Classification.isCandidate, htar, Bool.true_or]
  obtain ⟨forms, asIs, rfl, inForms, plain, notPlain⟩ :=
    uploadsOf_candidate text hstat regular h candidate
  obtain ⟨original, zipped, archived⟩ :=
    tarUploads_artifacts step hstat regular fits (inForms htar)
  rw [destinationKey_gzipName, destinationKey_tarGzName]
  cases hplain : (Classification.ofName config name).plain with
  | false =>
    rw [notPlain hplain, List.append_nil]
    exact ⟨original, zipped, archived⟩
  | true =>
    -- The copy has the key and the bytes of the original, and neither of the other keys.
    have others {key : String} (other : key ≠ destinationKey config.uploadDir name)
        (b : ByteArray) (there : lastWrite forms key = some b) :
        lastWrite (forms ++ asIs) key = some b := by
      rw [lastWrite_append, there, plain hplain]
      simp [lastWrite, other.symm]
    refine ⟨?_, zipped.mono (others (by simp)), archived.mono (others (by simp))⟩
    rw [plain hplain]
    simp [BytesOf, lastWrite_append, lastWrite]

/-- **A plain candidate is its upload.** -/
theorem uploadsOf_plain (hplain : (Classification.ofName config name).plain = true) :
    BytesOf (lastWrite uploads) (destinationKey config.uploadDir name) content.bytes := by
  have candidate : (Classification.ofName config name).isCandidate = true := by
    rw [Classification.isCandidate, hplain, Bool.or_true]
  obtain ⟨forms, asIs, rfl, -, plain, -⟩ := uploadsOf_candidate text hstat regular h candidate
  rw [plain hplain]
  simp [BytesOf, lastWrite_append, lastWrite]

end candidate

/-! ## §3. What is found at the keys of a candidate. -/

/-- No file that is taken later has the key. -/
def Unclaimed (config : Config) (fs : FileSystem) (dir : Path) (after : List RawText)
    (key : String) : Prop :=
  ∀ later ∈ after, ∀ m, TakesFrom config fs dir later m →
    key ∉ keysOf config.uploadDir (Classification.ofName config m) m

/-- What a candidate is uploaded as is not overwritten at a key that no later one has. -/
theorem lastWrite_of_unclaimed {before after : List RawText} {parts : List (List (String × ByteArray))}
    (listing : fs.listDirectory dir = .ok (before ++ entry :: after))
    (hparts : (before ++ entry :: after).mapM (uploadsOf config fs dir) = some parts) :
    ∃ uploads, uploadsOf config fs dir entry = some uploads ∧
      ∀ key bytes, Unclaimed config fs dir after key → lastWrite uploads key = some bytes →
        lastWrite parts.flatten key = some bytes := by
  have given := mapM_eq_some_iff.1 hparts
  rw [List.map_append, List.map_cons] at given
  obtain ⟨early, rest, rfl, hearly, hrest⟩ := List.append_eq_map_iff.1 given
  obtain ⟨uploads, late, rfl, huploads, hlate⟩ := List.map_eq_cons_iff.1 hrest
  refine ⟨uploads, huploads.symm, fun key bytes unclaimed written => ?_⟩
  -- Every later write is at a key of the file that it comes from.
  have nothing : lastWrite late.flatten key = none := by
    rw [lastWrite_eq_none_iff]
    intro w hw same
    obtain ⟨part, hpart, hw⟩ := List.mem_flatten.1 hw
    have there : some part ∈ after.map (uploadsOf config fs dir) :=
      hlate ▸ List.mem_map_of_mem hpart
    obtain ⟨later, hlater, hmade⟩ := List.mem_map.1 there
    have listed : later ∈ before ++ entry :: after :=
      List.mem_append_right _ (List.mem_cons_of_mem _ hlater)
    obtain ⟨m, takes, hkey⟩ := key_of_mem_uploadsOf hmade listing listed hw
    exact unclaimed later hlater m takes (same ▸ hkey)
  rw [List.flatten_append, List.flatten_cons, lastWrite_append, lastWrite_append, nothing, written]
  rfl

/-- With a single directory, the uploads of a walk are those of the entries that it lists. -/
theorem parts_of_single (single : config.dirs = [dir]) {entries : List RawText}
    (listing : fs.listDirectory dir = .ok entries) (h : expectedUploads config fs = some uploads) :
    ∃ parts, entries.mapM (uploadsOf config fs dir) = some parts ∧ uploads = parts.flatten := by
  unfold expectedUploads at h
  rw [single] at h
  obtain ⟨directories, hdirectories, hall⟩ := Option.bind_eq_some_iff.1 h
  obtain ⟨only, rfl, honly⟩ :
      ∃ only, directories = [only] ∧ uploadsOfDirectory config fs dir = some only := by
    have given := mapM_eq_some_iff.1 hdirectories
    rw [List.map_singleton] at given
    obtain ⟨only, honly, same⟩ := List.map_eq_singleton_iff.1 given.symm
    exact ⟨only, honly, same.symm⟩
  unfold uploadsOfDirectory at honly
  rw [listing] at honly
  obtain ⟨_, ⟨rfl⟩, hentries⟩ := Option.bind_eq_some_iff.1 honly
  obtain ⟨parts, hparts, hflat⟩ := Option.bind_eq_some_iff.1 hentries
  cases hflat
  cases hall
  exact ⟨parts, hparts, List.flatten_singleton⟩

/-! ## §4. The law. -/

/-- **Published artifacts belong to their file.**  With a single directory, a walk that succeeds
leaves at the keys of every candidate that is a regular file what the candidate can be got back
from: its bytes, a gzip member of them, and a gzip member of an archive that holds it alone.  A
key that a candidate listed later has as well is excepted.  A size is a number of 64 bits. -/
theorem run_publishes (config : Config) {dir : Path} (single : config.dirs = [dir])
    {r : Receiver σ} (undisturbed : r.LeavesDisk) {s s' : Session (σ × Shelf)}
    (sound : s.disk.Sound) {report : Report}
    (h : (run config r.shelving.toObjectStore).perform s = (.ok report, s'))
    {before after : List RawText} {entry : RawText}
    (listing : s.disk.listDirectory dir = .ok (before ++ entry :: after)) {name : String}
    (text : entry.toString? = some name) {n : Node} {content : Content}
    (hstat : s.disk.stat (dir.join entry) = .ok n) (regular : n.kind = .file content)
    (fits : content.size < UInt64.size) :
    ((Classification.ofName config name).tar = true →
      (Unclaimed config s.disk dir after (destinationKey config.uploadDir name) →
        BytesOf s'.store.2.content? (destinationKey config.uploadDir name) content.bytes) ∧
      (Unclaimed config s.disk dir after (destinationKey config.uploadDir (gzipName name)) →
        GzipOf s'.store.2.content? (destinationKey config.uploadDir (gzipName name))
          content.bytes) ∧
      (Unclaimed config s.disk dir after (destinationKey config.uploadDir (tarGzName name)) →
        ArchiveOf s'.store.2.content? (destinationKey config.uploadDir (tarGzName name))
          entry.bytes content.bytes)) ∧
    ((Classification.ofName config name).plain = true →
      Unclaimed config s.disk dir after (destinationKey config.uploadDir name) →
        BytesOf s'.store.2.content? (destinationKey config.uploadDir name) content.bytes) := by
  obtain ⟨all, expected, shelved⟩ := run_shelves config undisturbed sound h
  obtain ⟨parts, hparts, rfl⟩ := parts_of_single single listing expected
  obtain ⟨uploads, huploads, stays⟩ := lastWrite_of_unclaimed listing hparts
  -- What the candidate is uploaded as at an unclaimed key is found there.
  have found {key : String} (unclaimed : Unclaimed config s.disk dir after key) (b : ByteArray)
      (written : lastWrite uploads key = some b) : s'.store.2.content? key = some b := by
    rw [shelved, stays key b unclaimed written, Option.some_or]
  have step : entry.IsStep :=
    isStep_of_listDirectory sound listing entry (List.mem_append_right _ List.mem_cons_self)
  constructor
  · intro htar
    obtain ⟨original, zipped, archived⟩ :=
      uploadsOf_tar text hstat regular huploads step fits htar
    refine ⟨?_, ?_, ?_⟩
    · intro unclaimed
      exact found unclaimed _ original
    · intro unclaimed
      exact zipped.mono (found unclaimed)
    · intro unclaimed
      exact archived.mono (found unclaimed)
  · intro hplain unclaimed
    exact found unclaimed _ (uploadsOf_plain text hstat regular huploads hplain)

/-! ## §5. Why later files are excepted. -/

/-- A directory with a file and another one that is named like its gzip copy. -/
def collidingDisk : FileSystem where
  nodes := #[
    ⟨.directory [⟨RawText.ofString "d", 1⟩, ⟨RawText.ofString "w", 4⟩] FileSystem.root,
      Node.directoryMode, 0⟩,
    ⟨.directory [⟨RawText.ofString "a", 2⟩, ⟨RawText.ofString "a.gz", 3⟩] FileSystem.root,
      Node.directoryMode, 0⟩,
    Node.file (.ofBytes "bb".toUTF8),
    Node.file (.ofBytes "a".toUTF8),
    ⟨.directory [] FileSystem.root, Node.directoryMode, 0⟩]
  workingDirectory := FileSystem.root
  workingPath := Path.ofString "/"
  tempPath := Path.ofString "/w"

def collidingConfig : Config := { sampleConfig with tarPrefixes := ["a"], plainPrefixes := [] }

theorem sound_collidingDisk : collidingDisk.Sound := by decide

/-- The walk over it succeeds. -/
theorem run_colliding :
    ((run collidingConfig Receiver.acceptAll.shelving.toObjectStore).perform
      (shelvingSession collidingDisk)).1 = .ok ⟨1, 2, 2, 0, 6⟩ := by
  delta run processDirectory takeEntry visit publish publishTar publishGzip publishTarGz
    Compression.gzipFile Compression.tarGzFile Compression.writeCompressed
    Compression.writeRemains
  dsimp only
  -- What the compressed forms are is of no importance to the counters.
  generalize Gzip.encodePieces = encode
  generalize Compression.memberPieces = pieces
  generalize Compression.refusal = refusal
  cbv

/-- The last write at the key of the gzip copy is the other file. -/
theorem lastWrite_colliding :
    (expectedUploads collidingConfig collidingDisk).map (lastWrite · "v1/a.gz")
      = some (some "a".toUTF8) := by
  delta expectedUploads uploadsOfDirectory uploadsOf tarUploads Compression.gzipOf
    Compression.tarGzOf
  dsimp only
  generalize Gzip.encode = encode
  generalize Tar.archive = archive
  cbv

/-- At the keys that the other file has not, the first one is found. -/
theorem run_publishes_colliding :
    let found := ((run collidingConfig Receiver.acceptAll.shelving.toObjectStore).perform
      (shelvingSession collidingDisk)).2.store.2.content?
    BytesOf found "v1/a" "bb".toUTF8 ∧
      ArchiveOf found "v1/a.tar.gz" (RawText.ofString "a").bytes "bb".toUTF8 := by
  have listing : collidingDisk.listDirectory (Path.ofString "d")
      = .ok ([] ++ RawText.ofString "a" :: [RawText.ofString "a.gz"]) := by cbv
  have hstat : collidingDisk.stat ((Path.ofString "d").join (RawText.ofString "a"))
      = .ok (Node.file (.ofBytes "bb".toUTF8)) := by cbv
  obtain ⟨original, -, archived⟩ :=
    (run_publishes collidingConfig rfl Receiver.acceptAll_leavesDisk sound_collidingDisk
      (Prod.ext run_colliding rfl) listing (RawText.toString?_ofString "a") hstat rfl
      (by decide)).1 (by decide)
  have unclaimed {key : String} (other : key ∉ keysOf "v1" ⟨true, false⟩ "a.gz") :
      Unclaimed collidingConfig collidingDisk (Path.ofString "d") [RawText.ofString "a.gz"] key := by
    intro later hlater m takes
    cases List.mem_singleton.1 hlater
    obtain rfl : "a.gz" = m :=
      Option.some.inj ((RawText.toString?_ofString "a.gz").symm.trans takes.text)
    exact other
  exact ⟨original (unclaimed (by decide)), archived (unclaimed (by decide))⟩

/-- Without the exception, the gzip copy would have to be found where the other file is. -/
theorem not_always_published :
    ¬ ∀ (config : Config) (dir : Path) (s s' : Session (Unit × Shelf)) (report : Report),
      config.dirs = [dir] → s.disk.Sound →
      (run config Receiver.acceptAll.shelving.toObjectStore).perform s = (.ok report, s') →
      ∀ entries, s.disk.listDirectory dir = .ok entries →
      ∀ entry ∈ entries, ∀ name, entry.toString? = some name →
      ∀ n content, s.disk.stat (dir.join entry) = .ok n → n.kind = .file content →
        content.size < UInt64.size →
        ((Classification.ofName config name).tar = true →
          BytesOf s'.store.2.content? (destinationKey config.uploadDir name) content.bytes ∧
          GzipOf s'.store.2.content? (destinationKey config.uploadDir (gzipName name))
            content.bytes ∧
          ArchiveOf s'.store.2.content? (destinationKey config.uploadDir (tarGzName name))
            entry.bytes content.bytes) ∧
        ((Classification.ofName config name).plain = true →
          BytesOf s'.store.2.content? (destinationKey config.uploadDir name) content.bytes) := by
  intro always
  obtain ⟨s', succeeds⟩ : ∃ s', (run collidingConfig
      Receiver.acceptAll.shelving.toObjectStore).perform (shelvingSession collidingDisk)
      = (.ok ⟨1, 2, 2, 0, 6⟩, s') := ⟨_, Prod.ext run_colliding rfl⟩
  have listing : collidingDisk.listDirectory (Path.ofString "d")
      = .ok [RawText.ofString "a", RawText.ofString "a.gz"] := by cbv
  have hstat : collidingDisk.stat ((Path.ofString "d").join (RawText.ofString "a"))
      = .ok (Node.file (.ofBytes "bb".toUTF8)) := by cbv
  obtain ⟨-, ⟨gzip, there, unzipped⟩, -⟩ :=
    (always collidingConfig _ (shelvingSession collidingDisk) _ _ rfl sound_collidingDisk succeeds
      _ listing _ List.mem_cons_self _ (RawText.toString?_ofString "a") _ _ hstat rfl
      (by decide)).1 (by decide)
  obtain ⟨uploads, expected, shelved⟩ :=
    run_shelves collidingConfig Receiver.acceptAll_leavesDisk sound_collidingDisk succeeds
  have last : lastWrite uploads "v1/a.gz" = some "a".toUTF8 := by
    have computed := lastWrite_colliding
    rw [show expectedUploads collidingConfig collidingDisk = some uploads from expected] at computed
    exact Option.some.inj computed
  -- The bytes that are found are no gzip member.
  have other := shelved "v1/a.gz"
  rw [last, Option.some_or] at other
  obtain rfl : "a".toUTF8 = gzip := Option.some.inj (other.symm.trans there)
  have refused : Gzip.decode? "a".toUTF8 = none := by cbv
  rw [refused] at unzipped
  cases unzipped

end ArtifactCourier.Walk
