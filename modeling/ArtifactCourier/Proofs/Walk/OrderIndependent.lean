/-
  ArtifactCourier.Proofs.Walk.OrderIndependent
  ──────────────────────────────────────
  **Whether the order of a listing matters.**

  A file is published under its own name and, if it is a tar candidate, under two names that
  are made from it.  Two files can only be in each other's way if their names say so.  Where no
  two files of a directory are, the order in which it is listed shows neither in the store nor
  in the report.

    • `Walk.keysOf`, `Walk.Clashes`, `share_key_iff` — when two files have a key in common,
    • `key_of_mem_uploadsOf` — a file is uploaded to its own keys,
    • `lastWrite_uploadsOfDirectory`, `tallyOfDirectory_reordered` — one directory,
    • `run_order_independent` — the law.
-/
import ArtifactCourier.Proofs.FileSystem.Reordered
import ArtifactCourier.Proofs.Walk.Shelved
import ArtifactCourier.Proofs.Walk.Tally

namespace ArtifactCourier.Walk

open Store FileSystem

variable {σ : Type}

/-! ## §1. Keys. -/

/-- The keys under which a file of a name is published. -/
def keysOf (uploadDir : String) (c : Classification) (name : String) : List String :=
  if c.tar then
    [destinationKey uploadDir name, destinationKey uploadDir (gzipName name),
      destinationKey uploadDir (tarGzName name)]
  else if c.plain then [destinationKey uploadDir name]
  else []

/-- `m` is the name of a copy of `n`, or has one that is. -/
def Clashes (c e : Classification) (m n : String) : Prop :=
  e.tar = true ∧ (m = gzipName n ∨ m = tarGzName n ∨ c.tar = true ∧ m = n ++ ".tar")

theorem destinationKey_inj {uploadDir m n : String} :
    destinationKey uploadDir m = destinationKey uploadDir n ↔ m = n :=
  String.append_right_inj _

theorem gzipName_inj {m n : String} : gzipName m = gzipName n ↔ m = n := String.append_left_inj _

theorem tarGzName_inj {m n : String} : tarGzName m = tarGzName n ↔ m = n :=
  String.append_left_inj _

/-- The gzip copy of one file is the archive of another if the former is named like a tar file. -/
theorem gzipName_eq_tarGzName_iff {m n : String} : gzipName m = tarGzName n ↔ m = n ++ ".tar" := by
  have split : tarGzName n = gzipName (n ++ ".tar") := by
    unfold tarGzName gzipName
    rw [String.append_assoc]
    rfl
  rw [split, gzipName_inj]

/-- **When two files have a key in common.** -/
theorem share_key_iff {uploadDir m n : String} {c e : Classification} (hc : c.isCandidate = true)
    (he : e.isCandidate = true) (hne : m ≠ n) :
    (∃ key ∈ keysOf uploadDir c m, key ∈ keysOf uploadDir e n) ↔
      Clashes c e m n ∨ Clashes e c n m := by
  obtain ⟨ctar, cplain⟩ := c
  obtain ⟨etar, eplain⟩ := e
  have plain : ∀ {tar plain : Bool}, (⟨tar, plain⟩ : Classification).isCandidate = true →
      tar = false → plain = true := by
    intro tar plain h htar
    simpa [Classification.isCandidate, htar] using h
  unfold keysOf Clashes
  -- Only where both are tar candidates can a copy of one be a copy of the other.
  cases ctar <;> cases etar <;>
    simp [destinationKey_inj, gzipName_inj, tarGzName_inj, gzipName_eq_tarGzName_iff, hne,
      Ne.symm hne, plain hc, plain he]
  rw [@eq_comm _ (tarGzName m) (gzipName n), gzipName_eq_tarGzName_iff, @eq_comm _ (gzipName m) n,
    @eq_comm _ (tarGzName m) n]
  tauto

/-! ## §2. The uploads of a directory. -/

/-- No two files that are taken from a directory have clashing names. -/
def CollisionFree (config : Config) (fs : FileSystem) (dir : Path) : Prop :=
  ∀ a b m n, TakesFrom config fs dir a m → TakesFrom config fs dir b n → m ≠ n →
    ¬ Clashes (Classification.ofName config m) (Classification.ofName config n) m n

variable {config : Config} {fs fs' : FileSystem} {dir : Path} {entry : RawText}
  {uploads uploads' : List (String × ByteArray)}

theorem key_of_mem_tarUploads {file : Path} {uploadDir name : String}
    (h : tarUploads fs file (destinationKey uploadDir name) = some uploads)
    {w : String × ByteArray} (hw : w ∈ uploads) (c : Classification) (htar : c.tar = true) :
    w.1 ∈ keysOf uploadDir c name := by
  obtain ⟨content, tarGz, -, -, rfl⟩ := tarUploads_eq_some.1 h
  unfold keysOf destinationKey gzipName tarGzName
  rw [if_pos htar]
  simp only [List.mem_cons, List.not_mem_nil, or_false] at hw
  rcases hw with rfl | rfl | rfl
  · simp [destinationKey]
  · simp [destinationKey, String.append_assoc, Defaults.gzipExtension]
  · simp [destinationKey, String.append_assoc, Defaults.tarGzExtension]

theorem key_of_mem_plainUploads {file : Path} {uploadDir name : String}
    (h : plainUploads fs file (destinationKey uploadDir name) = some uploads)
    {w : String × ByteArray} (hw : w ∈ uploads) (c : Classification) (hplain : c.plain = true) :
    w.1 ∈ keysOf uploadDir c name := by
  obtain ⟨content, -, rfl⟩ := plainUploads_eq_some.1 h
  cases List.mem_singleton.1 hw
  unfold keysOf
  rw [if_pos hplain]
  split <;> exact List.mem_cons_self

/-- **A file is uploaded to its own keys.** -/
theorem key_of_mem_uploadsOf (h : uploadsOf config fs dir entry = some uploads)
    {entries : List RawText} (hlist : fs.listDirectory dir = .ok entries) (hentry : entry ∈ entries)
    {w : String × ByteArray} (hw : w ∈ uploads) :
    ∃ name, TakesFrom config fs dir entry name ∧
      w.1 ∈ keysOf config.uploadDir (Classification.ofName config name) name := by
  rw [uploadsOf_eq] at h
  cases htext : entry.toString? with
  | none =>
    rw [htext] at h
    cases h
    cases hw
  | some name =>
    rw [htext] at h
    dsimp only at h
    split at h
    · next taken =>
      obtain ⟨hcandidate, regular⟩ := taken
      have hregular : ∃ n, fs.stat (dir.join entry) = .ok n ∧ n.isFile = true := by
        rcases hstat : fs.stat (dir.join entry) with e | n <;> rw [hstat] at regular
        · cases regular
        · exact ⟨n, rfl, regular⟩
      have hread := listDirectory_eq_ok.1 hlist
      refine ⟨name, ⟨⟨_, hread, hentry⟩, htext, hcandidate, hregular⟩, ?_⟩
      obtain ⟨inForms, hforms, h⟩ := Option.bind_eq_some_iff.1 h
      obtain ⟨asIs, hplain, h⟩ := Option.bind_eq_some_iff.1 h
      cases h
      rcases List.mem_append.1 hw with hw | hw
      · split at hforms
        · next htar => exact key_of_mem_tarUploads hforms hw _ htar
        · cases hforms
          cases hw
      · split at hplain
        · next hasPlain => exact key_of_mem_plainUploads hplain hw _ hasPlain
        · cases hplain
          cases hw
    · cases h
      cases hw

/-- The uploads of different entries are at different keys. -/
theorem apart_uploadsOf (free : CollisionFree config fs dir) {entries : List RawText}
    (hlist : fs.listDirectory dir = .ok entries) {a b : RawText} (ha : a ∈ entries)
    (hb : b ∈ entries) (hne : a ≠ b) (hfirst : uploadsOf config fs dir a = some uploads)
    (hsecond : uploadsOf config fs dir b = some uploads') : Apart uploads uploads' := by
  intro w hw w' hw' same
  obtain ⟨m, takesA, hkey⟩ := key_of_mem_uploadsOf hfirst hlist ha hw
  obtain ⟨n, takesB, hkey'⟩ := key_of_mem_uploadsOf hsecond hlist hb hw'
  have names : m ≠ n := by
    intro given
    apply hne
    rw [← RawText.ofString_of_toString? takesA.text, ← RawText.ofString_of_toString? takesB.text,
      given]
  -- A key in common would be a clash.
  rcases (share_key_iff takesA.candidate takesB.candidate names).1 ⟨w.1, hkey, same ▸ hkey'⟩ with
    clash | clash
  · exact free a b m n takesA takesB names clash
  · exact free b a n m takesB takesA names.symm clash

section reordered

variable (h : fs.Reordered fs')

include h

theorem any_isFile_reordered (p : Path) :
    (fs'.stat p).toOption.any Node.isFile = (fs.stat p).toOption.any Node.isFile := by
  obtain ⟨e, hstat, hstat'⟩ | ⟨n, n', hstat, hstat', related⟩ := stat_reordered h p
  · rw [hstat, hstat']
  · rw [hstat, hstat']
    exact related.isFile

/-- What an entry adds to the uploads does not depend on the order of listings. -/
theorem uploadsOf_reordered (config : Config) (dir : Path) (entry : RawText) :
    uploadsOf config fs' dir entry = uploadsOf config fs dir entry := by
  rw [uploadsOf_eq, uploadsOf_eq]
  cases entry.toString? with
  | none => rfl
  | some name =>
    dsimp only
    rw [any_isFile_reordered h]
    split
    · next taken =>
      -- A regular file is the same node on both disks.
      have same : fs'.stat (dir.join entry) = fs.stat (dir.join entry) := by
        obtain ⟨e, hstat, hstat'⟩ | ⟨n, n', hstat, hstat', related⟩ :=
          stat_reordered h (dir.join entry)
        · rw [hstat, hstat']
        · rw [hstat] at taken
          rw [hstat, hstat', related.eq_of_isFile taken.2]
      have tarGz : Compression.tarGzOf fs' (dir.join entry)
          = Compression.tarGzOf fs (dir.join entry) := by
        unfold Compression.tarGzOf Compression.archiveMembers
        rw [same, ownerAt_reordered h]
      unfold tarUploads plainUploads Compression.gzipOf
      rw [bytesAt_reordered h, tarGz]
    · rfl

theorem tallyOf_reordered (config : Config) (dir : Path) (entry : RawText) :
    tallyOf config fs' dir entry = tallyOf config fs dir entry := by
  unfold tallyOf
  rw [any_isFile_reordered h]

/-- **The counters of a directory** do not depend on the order of its listing. -/
theorem tallyOfDirectory_reordered (config : Config) (dir : Path) :
    tallyOfDirectory config fs' dir = tallyOfDirectory config fs dir := by
  unfold tallyOfDirectory
  have entrywise : tallyOf config fs' dir = tallyOf config fs dir :=
    funext (tallyOf_reordered h config dir)
  rw [entrywise]
  obtain ⟨e, hlist, hlist'⟩ | ⟨names, names', hlist, hlist', order⟩ :=
    listDirectory_reordered h dir
  · rw [hlist, hlist']
  · rw [hlist, hlist']
    rcases order with rfl | ⟨perm, -⟩
    · rfl
    · exact congrArg _ (perm.map _).sum_eq.symm

/-- **The last writes of a directory** do not depend on the order of its listing, if no two of
its files clash. -/
theorem lastWrite_uploadsOfDirectory (free : CollisionFree config fs dir)
    (hfirst : uploadsOfDirectory config fs dir = some uploads)
    (hsecond : uploadsOfDirectory config fs' dir = some uploads') (key : String) :
    lastWrite uploads key = lastWrite uploads' key := by
  unfold uploadsOfDirectory at hfirst hsecond
  have entrywise : uploadsOf config fs' dir = uploadsOf config fs dir :=
    funext (uploadsOf_reordered h config dir)
  rw [entrywise] at hsecond
  obtain ⟨e, hlist, hlist'⟩ | ⟨names, names', hlist, hlist', order⟩ :=
    listDirectory_reordered h dir
  · rw [hlist] at hfirst
    cases hfirst
  rw [hlist] at hfirst
  rw [hlist'] at hsecond
  obtain ⟨_, ⟨rfl⟩, hfirst⟩ := Option.bind_eq_some_iff.1 hfirst
  obtain ⟨_, ⟨rfl⟩, hsecond⟩ := Option.bind_eq_some_iff.1 hsecond
  obtain ⟨parts, hparts, hall⟩ := Option.bind_eq_some_iff.1 hfirst
  obtain ⟨parts', hparts', hall'⟩ := Option.bind_eq_some_iff.1 hsecond
  cases hall
  cases hall'
  rcases order with rfl | ⟨perm, distinct⟩
  · rw [hparts] at hparts'
    cases hparts'
    rfl
  have given := mapM_eq_some_iff.1 hparts
  have given' := mapM_eq_some_iff.1 hparts'
  apply lastWrite_flatten_perm
  · -- The parts are permuted as the entries are.
    have permuted : (parts.map some).Perm (parts'.map some) := given ▸ given' ▸ perm.map _
    exact (List.map_perm_map_iff (Option.some_injective _)).1 permuted
  · have apart : (names.map (uploadsOf config fs dir)).Pairwise
        fun x y => ∀ p, x = some p → ∀ q, y = some q → Apart p q := by
      rw [List.pairwise_map]
      refine distinct.imp_of_mem fun ha hb hne p hp q hq => ?_
      exact apart_uploadsOf free hlist ha hb hne hp hq
    rw [given, List.pairwise_map] at apart
    exact apart.imp fun apart => apart _ rfl _ rfl

end reordered

/-! ## §3. The law. -/

/-- Directories that write the same, each for itself, write the same together. -/
theorem lastWrite_flatten_congr {ι : Type} {f f' : ι → Option (List (String × ByteArray))}
    {dirs : List ι}
    (h : ∀ dir ∈ dirs, ∀ p p', f dir = some p → f' dir = some p' →
      ∀ key, lastWrite p key = lastWrite p' key)
    {parts parts' : List (List (String × ByteArray))} (hparts : dirs.map f = parts.map some)
    (hparts' : dirs.map f' = parts'.map some) (key : String) :
    lastWrite parts.flatten key = lastWrite parts'.flatten key := by
  induction dirs generalizing parts parts' with
  | nil =>
    cases parts <;> cases parts' <;> simp at hparts hparts'
    rfl
  | cons dir dirs ih =>
    rcases parts with _ | ⟨p, parts⟩ <;> rcases parts' with _ | ⟨p', parts'⟩ <;>
      simp only [List.map_cons, List.map_nil, List.cons.injEq, reduceCtorEq] at hparts hparts'
    rw [List.flatten_cons, List.flatten_cons, lastWrite_append, lastWrite_append,
      h dir List.mem_cons_self p p' hparts.1 hparts'.1,
      ih (fun d hd => h d (List.mem_cons_of_mem _ hd)) hparts.2 hparts'.2]

/-- **Whether the order of a listing matters.**  Two candidates with different names have a key
in common if and only if one of them is a tar candidate and the other is named like a copy of
it, or both are tar candidates and one is named like a tar file of the other.  If no two files
of a directory are like that, for every configured directory, then two successful walks over
disks that differ only in the order of listings leave the same bytes at every key and give the
same report. -/
theorem run_order_independent (config : Config) {r : Receiver σ} (undisturbed : r.LeavesDisk) :
    (∀ uploadDir m n (c e : Classification), c.isCandidate = true → e.isCandidate = true → m ≠ n →
      ((∃ key ∈ keysOf uploadDir c m, key ∈ keysOf uploadDir e n) ↔
        Clashes c e m n ∨ Clashes e c n m)) ∧
    ∀ (s s' t t' : Session (σ × Shelf)) (report report' : Report),
      s.disk.Sound → s'.disk.Sound → s.disk.Reordered s'.disk →
      (∀ dir ∈ config.dirs, CollisionFree config s.disk dir) →
      (∀ key, s.store.2.content? key = s'.store.2.content? key) →
      (run config r.shelving.toObjectStore).perform s = (.ok report, t) →
      (run config r.shelving.toObjectStore).perform s' = (.ok report', t') →
      (∀ key, t.store.2.content? key = t'.store.2.content? key) ∧ report = report' := by
  refine ⟨fun uploadDir m n c e => share_key_iff, ?_⟩
  intro s s' t t' report report' sound sound' order free start hrun hrun'
  have still : r.shelving.LeavesDisk := undisturbed
  constructor
  · intro key
    obtain ⟨uploads, expected, shelved⟩ := run_shelves config undisturbed sound hrun
    obtain ⟨uploads', expected', shelved'⟩ := run_shelves config undisturbed sound' hrun'
    obtain ⟨parts, hparts, hall⟩ := Option.bind_eq_some_iff.1 expected
    obtain ⟨parts', hparts', hall'⟩ := Option.bind_eq_some_iff.1 expected'
    cases hall
    cases hall'
    rw [shelved, shelved', start, lastWrite_flatten_congr _ (mapM_eq_some_iff.1 hparts)
      (mapM_eq_some_iff.1 hparts')]
    exact fun dir hdir p p' hp hp' => lastWrite_uploadsOfDirectory order (free dir hdir) hp hp'
  · rw [run_report config still.countsNothing still.toObjectStore sound hrun,
      run_report config still.countsNothing still.toObjectStore sound' hrun']
    unfold expectedReport
    have directorywise : tallyOfDirectory config s'.disk = tallyOfDirectory config s.disk :=
      funext (tallyOfDirectory_reordered order config)
    rw [directorywise]

/-- The sample disk, with its directory listed backwards. -/
def backwardDisk : FileSystem := sampleDisk.setEntries 1 List.reverse

def shelvingSession (disk : FileSystem) : Session (Unit × Shelf) :=
  Session.start disk ((), []) fun _ => RawText.ofString "x"

/-- The names of the files that are taken from the sample disk. -/
theorem mem_of_takesFrom_sample {entry : RawText} {name : String}
    (h : TakesFrom sampleConfig sampleDisk (Path.ofString "d") entry name) :
    name ∈ ["b.wasm", "a.wasm", "c", "b.d", "a.json"] := by
  obtain ⟨l, hread, hentry⟩ := h.listed
  have listed : sampleDisk.listDirectory (Path.ofString "d") = .ok
      [RawText.ofString "b.wasm", ⟨[0xFF]⟩, RawText.ofString "a.wasm", RawText.ofString "c",
        RawText.ofString "b.d", RawText.ofString "a.json"] := by cbv
  obtain rfl := Except.ok.inj ((listDirectory_eq_ok.1 listed).symm.trans hread)
  have text := h.text
  have named {other : String} (text : (RawText.ofString other).toString? = some name) :
      name = other := (Option.some.inj ((RawText.toString?_ofString other).symm.trans text)).symm
  simp only [List.mem_cons, List.not_mem_nil, or_false] at hentry
  rcases hentry with rfl | rfl | rfl | rfl | rfl | rfl
  · simp [named text]
  · cases text
  · simp [named text]
  · simp [named text]
  · simp [named text]
  · simp [named text]

/-- No names of files in the sample disk clash, though there are two tar candidates. -/
theorem collisionFree_sample :
    ∀ dir ∈ sampleConfig.dirs, CollisionFree sampleConfig sampleDisk dir := by
  intro dir hdir a b m n hm hn _ clash
  cases List.mem_singleton.1 hdir
  have apart : ∀ m ∈ ["b.wasm", "a.wasm", "c", "b.d", "a.json"],
      ∀ n ∈ ["b.wasm", "a.wasm", "c", "b.d", "a.json"],
        ¬ (m = gzipName n ∨ m = tarGzName n ∨ m = n ++ ".tar") := by decide
  refine apart m (mem_of_takesFrom_sample hm) n (mem_of_takesFrom_sample hn) ?_
  exact clash.2.imp_right (Or.imp_right And.right)

/-- The walk over the directory listed backwards succeeds as well. -/
theorem run_backwards :
    ((run sampleConfig Receiver.acceptAll.shelving.toObjectStore).perform
      (shelvingSession backwardDisk)).1 = .ok ⟨1, 6, 2, 1, 7⟩ := by
  delta run processDirectory takeEntry visit publish publishTar publishGzip publishTarGz
    Compression.gzipFile Compression.tarGzFile Compression.writeCompressed
    Compression.writeRemains
  dsimp only
  generalize Gzip.encodePieces = encode
  generalize Compression.memberPieces = pieces
  generalize Compression.refusal = refusal
  cbv

/-- A walk over a directory and a walk over the same directory listed backwards. -/
theorem run_order_independent_backwards :
    sampleDisk.Reordered backwardDisk ∧
    ∀ key,
      ((run sampleConfig Receiver.acceptAll.shelving.toObjectStore).perform
          (shelvingSession sampleDisk)).2.store.2.content? key
        = ((run sampleConfig Receiver.acceptAll.shelving.toObjectStore).perform
          (shelvingSession backwardDisk)).2.store.2.content? key := by
  have reordered : sampleDisk.Reordered backwardDisk :=
    reordered_setEntries 1 (List.reverse_perm _).symm (by decide)
  refine ⟨reordered, ?_⟩
  obtain ⟨_, hrun⟩ := succeeds_alone Receiver.acceptAll_leavesDisk sampleConfig
    (Prod.ext run_sample rfl) []
  have went : (run sampleConfig Receiver.acceptAll.shelving.toObjectStore).perform
      (shelvingSession sampleDisk) = _ := hrun
  have law := (run_order_independent sampleConfig Receiver.acceptAll_leavesDisk).2
    (shelvingSession sampleDisk) (shelvingSession backwardDisk) _ _ _ _ (by decide) (by decide)
    reordered collisionFree_sample (fun _ => rfl) hrun (Prod.ext run_backwards rfl)
  rw [went]
  exact law.1

end ArtifactCourier.Walk
