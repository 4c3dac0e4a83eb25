/-
  ArtifactCourier.Proofs.Walk.Shelved
  ──────────────────────────────────────
  **What is in the store after a successful walk.**

  A store that keeps what was written last at each key is told by the writes, one after the
  other.  After a walk that succeeds these are the expected uploads, which depend on the disk
  before the walk and on nothing else.

    • `lastWrite` — what was written last at a key,
    • `lastWrite_flatten_perm` — writes in groups that share no key, in any order,
    • `content?_putAll` — the shelf after some objects were put on it,
    • `run_shelves` — the shelf after a walk.
-/
import ArtifactCourier.Proofs.Walk.Uploads

namespace ArtifactCourier

open Store FileSystem

variable {σ : Type}

/-! ## §1. Writes. -/

/-- What was written last at a key. -/
def lastWrite : List (String × ByteArray) → String → Option ByteArray
  | [], _ => none
  | (k, bytes) :: rest, key => (lastWrite rest key).or (if k = key then some bytes else none)

variable {key : String} {writes before after : List (String × ByteArray)}

@[simp] theorem lastWrite_nil : lastWrite [] key = none := rfl

theorem lastWrite_append (before after : List (String × ByteArray)) :
    lastWrite (before ++ after) key = (lastWrite after key).or (lastWrite before key) := by
  induction before with
  | nil => simp
  | cons w before ih =>
    obtain ⟨k, bytes⟩ := w
    rw [List.cons_append, lastWrite, lastWrite, ih, Option.or_assoc]

/-- Nothing was written at a key that none of the writes is for. -/
theorem lastWrite_eq_none_iff : lastWrite writes key = none ↔ ∀ w ∈ writes, w.1 ≠ key := by
  induction writes with
  | nil => simp
  | cons w writes ih =>
    obtain ⟨k, bytes⟩ := w
    simp [lastWrite, ih, and_comm]

/-- Some writes are at other keys than others. -/
def Apart (before after : List (String × ByteArray)) : Prop :=
  ∀ w ∈ before, ∀ w' ∈ after, w.1 ≠ w'.1

theorem Apart.symm (h : Apart before after) : Apart after before :=
  fun w hw w' hw' => (h w' hw' w hw).symm

/-- Writes at other keys may as well come first. -/
theorem Apart.lastWrite_swap (h : Apart before after) :
    lastWrite (before ++ after) key = lastWrite (after ++ before) key := by
  rw [lastWrite_append, lastWrite_append]
  cases hbefore : lastWrite before key with
  | none => simp
  | some bytes =>
    -- The key is one of the first writes, so it is none of the others.
    have other : lastWrite after key = none := by
      refine lastWrite_eq_none_iff.2 fun w' hw' given => ?_
      rw [lastWrite_eq_none_iff.2 fun w hw => given ▸ h w hw w' hw'] at hbefore
      cases hbefore
    simp [other]

/-- **Writes in groups that share no key, in any order**, have the same outcome.  The induction
is on the permutation of the groups. -/
theorem lastWrite_flatten_perm {parts parts' : List (List (String × ByteArray))}
    (h : parts.Perm parts') (apart : parts.Pairwise Apart) :
    lastWrite parts.flatten key = lastWrite parts'.flatten key := by
  induction h with
  | nil => rfl
  | cons part _ ih =>
    rw [List.flatten_cons, List.flatten_cons, lastWrite_append, lastWrite_append,
      ih (List.pairwise_cons.1 apart).2]
  | swap first second rest =>
    have swapped := (List.pairwise_cons.1 apart).1 first List.mem_cons_self
    rw [List.flatten_cons, List.flatten_cons, List.flatten_cons, List.flatten_cons,
      ← List.append_assoc, ← List.append_assoc, lastWrite_append (second ++ first),
      lastWrite_append (first ++ second), swapped.lastWrite_swap]
  | trans h _ ih ih' =>
    exact (ih apart).trans (ih' ((h.pairwise_iff fun apart => apart.symm).1 apart))

/-! ## §2. The shelf. -/

namespace Store.Shelf

/-- The bytes at a key. -/
def content? (shelf : Shelf) (key : String) : Option ByteArray := (shelf.get? key).map (·.content)

theorem content?_put (shelf : Shelf) (o : Stored) :
    (shelf.put o).content? key = if o.key = key then some o.content else shelf.content? key := by
  unfold content?
  split
  · next heq => rw [← heq, get?_put_self, Option.map_some]
  · next hne => rw [get?_put_of_ne shelf hne]

/-- **The shelf after some objects were put on it**, one after the other. -/
theorem content?_putAll (shelf : Shelf) (os : List Stored) :
    (shelf.putAll os).content? key =
      (lastWrite (os.map Stored.object) key).or (shelf.content? key) := by
  induction os generalizing shelf with
  | nil => simp [putAll]
  | cons o os ih =>
    have later : shelf.putAll (o :: os) = (shelf.put o).putAll os := rfl
    rw [later, ih, content?_put, List.map_cons, Stored.object, lastWrite, Option.or_assoc]
    split <;> rfl

end Store.Shelf

/-! ## §3. Groups of uploads. -/

/-- If every round of a loop gives something, the loop gives all of it. -/
theorem mapM_eq_some_iff {α β : Type} {f : α → Option β} {l : List α} {results : List β} :
    l.mapM f = some results ↔ l.map f = results.map some := by
  induction l generalizing results with
  | nil => cases results <;> simp
  | cons a l ih =>
    rw [List.mapM_cons, List.map_cons]
    cases hfirst : f a with
    | none => cases results <;> simp
    | some first =>
      cases hrest : l.mapM f with
      | none =>
        cases results with
        | nil => simp
        | cons b results =>
          have unequal : ¬ l.map f = results.map some := fun given => by
            rw [ih.2 given] at hrest
            cases hrest
          simp [unequal]
      | some rest =>
        have same := ih.1 hrest
        cases results with
        | nil => simp
        | cons b results => simp [same, List.map_inj_right]

namespace Walk

/-- What an entry adds to the uploads: if it is taken, what its classification asks for. -/
theorem uploadsOf_eq (config : Config) (disk : FileSystem) (dir : Path) (entry : RawText) :
    uploadsOf config disk dir entry =
      match entry.toString? with
      | none => some []
      | some name =>
        let c := Classification.ofName config name
        let key := destinationKey config.uploadDir name
        if c.isCandidate ∧ (disk.stat (dir.join entry)).toOption.any Node.isFile then
          andThen (if c.tar then tarUploads disk (dir.join entry) key else some [])
            (if c.plain then plainUploads disk (dir.join entry) key else some [])
        else some [] := by
  unfold uploadsOf
  cases entry.toString? with
  | none => rfl
  | some name =>
    have htar : (Classification.ofName config name).tar
        = decide (StartsWithOneOf config.tarPrefixes name) := matchesAny_eq_decide _ _
    have hplain : (Classification.ofName config name).plain
        = decide (StartsWithOneOf config.plainPrefixes name) := matchesAny_eq_decide _ _
    simp only [Classification.isCandidate, htar, hplain, Bool.or_eq_true, decide_eq_true_eq]
    by_cases tar : StartsWithOneOf config.tarPrefixes name <;>
      by_cases plain : StartsWithOneOf config.plainPrefixes name <;>
      cases (disk.stat (dir.join entry)).toOption.any Node.isFile <;>
      simp [tar, plain, andThen, destinationKey]

theorem tarUploads_eq_some {disk : FileSystem} {file : Path} {key : String}
    {uploads : List (String × ByteArray)} :
    tarUploads disk file key = some uploads ↔
      ∃ content tarGz, disk.bytesAt file = .ok content ∧
        Compression.tarGzOf disk file = some tarGz ∧
        uploads = [(key, content), (key ++ ".gz", Gzip.encode content),
          (key ++ ".tar.gz", tarGz)] := by
  unfold tarUploads Compression.gzipOf
  rcases disk.bytesAt file with e | content
  · simp [Except.toOption]
  · cases Compression.tarGzOf disk file <;> simp [Except.toOption, eq_comm]

theorem plainUploads_eq_some {disk : FileSystem} {file : Path} {key : String}
    {uploads : List (String × ByteArray)} :
    plainUploads disk file key = some uploads ↔
      ∃ content, disk.bytesAt file = .ok content ∧ uploads = [(key, content)] := by
  unfold plainUploads
  rcases disk.bytesAt file with e | content <;> simp [Except.toOption, eq_comm]

end Walk

/-! ## §4. The walk. -/

namespace Walk

variable {r : Receiver σ}

/-- **The shelf after a successful walk** holds what was uploaded last at each key, and at other
keys what it held before. -/
theorem run_shelves (config : Config) (undisturbed : r.LeavesDisk) {s s' : Session (σ × Shelf)}
    (sound : s.disk.Sound) {report : Report}
    (h : (run config r.shelving.toObjectStore).perform s = (.ok report, s')) :
    ∃ uploads, expectedUploads config s.disk = some uploads ∧
      ∀ key, s'.store.2.content? key = (lastWrite uploads key).or (s.store.2.content? key) := by
  have still : r.shelving.LeavesDisk := undisturbed
  obtain ⟨-, made, handed, expected⟩ :=
    hands_run still config sound s report s' (Kept.refl s.disk) h
  refine ⟨_, expected, fun key => ?_⟩
  -- A walk that succeeds was refused nothing, so all that was handed over is on the shelf.
  obtain ⟨attempts, handovers, went⟩ :=
    follows_run still config s (s.withStore ()) (s.twin_withStore ())
  rw [h] at went
  rcases went with ⟨taken, -, twin⟩ | ⟨_, _, _, _, _, _, _, _, result, _⟩
  · obtain rfl : made = attempts := by
      have same : s.handovers ++ made = s.handovers ++ attempts :=
        handed.symm.trans (twin.handovers.trans handovers)
      exact List.append_cancel_left same
    rw [(Receiver.takes_shelving_iff.1 taken).2]
    exact Shelf.content?_putAll _ _
  · cases result

end Walk
end ArtifactCourier
