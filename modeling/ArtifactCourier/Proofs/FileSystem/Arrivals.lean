/-
  ArtifactCourier.Proofs.FileSystem.Arrivals
  ──────────────────────────────────────
  **However the bytes of a file arrive.**

  A read gets as many bytes as are there at once, which nobody can tell beforehand.  What a
  disk holds, and what becomes of it when it is written, is the same whatever is there.

    • `readPieces_eq_ok` — what is read in pieces is what the file holds,
    • `exists_readPieces` — it may be read in any pieces that are not too long,
    • `withArrivals` — a disk on which bytes arrive otherwise,
    • `openWrite_withArrivals`, `writeAll_withArrivals` — files are written there as before.
-/
import ArtifactCourier.Proofs.Bytes
import ArtifactCourier.Proofs.FileSystem.Sound

namespace ArtifactCourier

/-! ## §1. Pieces. -/

/-- What is read in pieces is all that there is. -/
theorem joined_read (length : Nat → Nat) (data : ByteArray) :
    joined (piecesFrom length data 0) = data := by
  rw [joined_piecesFrom, ByteArray.extract_zero_size]

/-- Where pieces begin has no say in those behind. -/
theorem piecesFrom_congr {length length' : Nat → Nat} {data : ByteArray} {offset : Nat}
    (same : ∀ i ≥ offset, length' i = length i) :
    piecesFrom length' data offset = piecesFrom length data offset := by
  fun_induction piecesFrom length data offset with
  | case1 offset more ih =>
    rw [piecesFrom, if_pos more, same offset (Nat.le_refl _),
      ih fun i later => same i (Nat.le_trans (Nat.le_add_right _ _) later)]
  | case2 offset done => rw [piecesFrom, if_neg done]

/-- **Any pieces can be cut**, if none is empty.  The induction is on the pieces; what was cut
before stands in front. -/
theorem exists_piecesFrom {most : Nat} (pieces : List ByteArray)
    (fit : ∀ piece ∈ pieces, 0 < piece.size ∧ piece.size ≤ most) (before : ByteArray) :
    ∃ length : Nat → Nat,
      piecesFrom (fun i => min most (length i)) (before ++ joined pieces) before.size = pieces := by
  induction pieces generalizing before with
  | nil =>
    refine ⟨fun _ => 0, ?_⟩
    rw [joined_nil, ByteArray.append_empty, piecesFrom, if_neg (Nat.lt_irrefl _)]
  | cons piece pieces ih =>
    obtain ⟨length, behind⟩ :=
      ih (fun p hp => fit p (List.mem_cons_of_mem _ hp)) (before ++ piece)
    obtain ⟨some, short⟩ := fit piece List.mem_cons_self
    refine ⟨fun i => if i = before.size then piece.size else length i, ?_⟩
    have more : before.size < (before ++ joined (piece :: pieces)).size := by
      simp only [joined_cons, ByteArray.size_append]
      omega
    have cut : max 1 (min most piece.size) = piece.size := by omega
    have first : (before ++ piece ++ joined pieces).extract before.size (before ++ piece).size
        = piece := by
      have within := @extract_within before piece (joined pieces) 0 piece.size (Nat.le_refl _)
      rwa [Nat.add_zero, ByteArray.extract_zero_size, ← ByteArray.size_append] at within
    rw [piecesFrom, if_pos more]
    simp only [if_true, cut, joined_cons, ← ByteArray.append_assoc, ← ByteArray.size_append, first]
    congr 1
    refine (piecesFrom_congr fun i later => ?_).trans behind
    have other : i ≠ before.size := by
      rw [ByteArray.size_append] at later
      omega
    rw [if_neg other]

namespace FileSystem

variable {fs fs' opened : FileSystem} {id : NodeId} {p : Path} {most : Nat}

/-- **What is read in pieces** is what the file holds. -/
theorem readPieces_eq_ok {pieces : List ByteArray} (h : fs.readPieces id most = .ok pieces) :
    fs.readAll id = .ok (joined pieces) := by
  unfold readPieces at h
  rcases hread : fs.readAll id with e | data
  · rw [hread] at h
    cases h
  · rw [hread] at h
    cases h
    rw [joined_read]

/-! ## §2. Disks on which bytes arrive otherwise. -/

/-- A disk on which bytes arrive as `arrivals` tells. -/
def withArrivals (fs : FileSystem) (arrivals : NodeId → Nat → Nat) : FileSystem :=
  { fs with arrivals := arrivals }

variable {arrivals : NodeId → Nat → Nat}

/-- **A file may be read in any pieces**, as long as none is too long. -/
theorem exists_readPieces {pieces : List ByteArray} (hread : fs.readAll id = .ok (joined pieces))
    (fit : ∀ piece ∈ pieces, 0 < piece.size ∧ piece.size ≤ most) :
    ∃ arrivals, (fs.withArrivals arrivals).readPieces id most = .ok pieces := by
  obtain ⟨length, cut⟩ := exists_piecesFrom pieces fit ByteArray.empty
  rw [ByteArray.empty_append] at cut
  refine ⟨fun _ => length, ?_⟩
  have same : (fs.withArrivals fun _ => length).readAll id = .ok (joined pieces) := hread
  rw [readPieces, same]
  exact congrArg Except.ok cut

theorem kept_withArrivals (fs : FileSystem) (arrivals : NodeId → Nat → Nat) :
    fs.Kept (fs.withArrivals arrivals) :=
  ⟨⟨rfl, rfl, rfl, rfl, rfl⟩, fun _ _ => rfl⟩

theorem setContent_withArrivals (id : NodeId) (content : Content) :
    (fs.withArrivals arrivals).setContent id content
      = (fs.setContent id content).withArrivals arrivals := by
  have same : (fs.withArrivals arrivals).node? id = fs.node? id := rfl
  unfold setContent
  rw [same]
  split <;> rfl

theorem create_withArrivals (dir : NodeId) (name : RawText) (n : Node) :
    (fs.withArrivals arrivals).create dir name n
      = ((fs.create dir name n).1, (fs.create dir name n).2.withArrivals arrivals) := by
  have same : ((fs.withArrivals arrivals).addNode n).2.node? dir = (fs.addNode n).2.node? dir := rfl
  unfold create link setEntries
  dsimp only
  rw [same]
  split <;> rfl

/-- **A file is opened for writing as before.** -/
theorem openWrite_withArrivals (sound : fs.Sound) (h : fs.openWrite p = .ok (id, opened)) :
    (fs.withArrivals arrivals).openWrite p = .ok (id, opened.withArrivals arrivals) := by
  have kept := kept_withArrivals fs arrivals
  unfold openWrite at h ⊢
  rw [holder_kept sound kept, resolve_kept sound kept]
  split at h
  · obtain ⟨_, -, h⟩ := bind_eq_ok.1 h
    cases h
  · next plain =>
    obtain ⟨found | ⟨dir, name, slash⟩, hresolve, h⟩ := bind_eq_ok.1 h
    · have same : (fs.withArrivals arrivals).kind? found = fs.kind? found := rfl
      rw [if_neg plain, hresolve]
      dsimp only [bind, Except.bind] at h ⊢
      rw [same]
      split at h
      · cases h
      · cases h
      · cases h
        rw [setContent_withArrivals]
      · cases h
    · rw [if_neg plain, hresolve]
      dsimp only [bind, Except.bind] at h ⊢
      split at h
      · cases h
      · next noSlash =>
        rw [if_neg noSlash, create_withArrivals, Except.ok.inj h]

/-- **A file is written as before.** -/
theorem writeAll_withArrivals {data : ByteArray} (h : fs.writeAll id data = .ok fs') :
    (fs.withArrivals arrivals).writeAll id data = .ok (fs'.withArrivals arrivals) := by
  have same : (fs.withArrivals arrivals).kind? id = fs.kind? id := rfl
  unfold writeAll at h ⊢
  rw [same]
  split at h
  · split at h
    · next nothing =>
      cases h
      rw [if_pos nothing]
    · cases h
  · cases h
    rw [setContent_withArrivals]

end FileSystem
end ArtifactCourier
