/-
  ArtifactCourier.Proofs.FileSystem.BaseName
  ──────────────────────────────────────
  **The steps of a path are written in it.**

    • `isStep_of_mem_components` — an entry that a path names is a single step,
    • `isStep_of_fileName?` — so is its base name,
    • `fileName?_of_notMem` — without a slash a path is its own base name.
-/
import ArtifactCourier.Proofs.FileSystem.Sound
import ArtifactCourier.Proofs.Path

namespace ArtifactCourier.Path

theorem sublist_of_mem_segmentsOf {bytes segment : List UInt8} (h : segment ∈ segmentsOf bytes) :
    segment.Sublist bytes := by
  induction bytes generalizing segment with
  | nil =>
    cases List.mem_singleton.1 h
    exact List.Sublist.refl _
  | cons b bs ih =>
    rw [segmentsOf] at h
    split at h
    · rcases List.mem_cons.1 h with rfl | h
      · exact List.nil_sublist _
      · exact (ih h).cons b
    · split at h
      · next hs => exact absurd hs (segmentsOf_ne_nil bs)
      · next s ss hs =>
        rw [hs] at ih
        rcases List.mem_cons.1 h with rfl | h
        · exact (ih List.mem_cons_self).cons_cons b
        · exact (ih (List.mem_cons_of_mem _ h)).cons b

theorem stepOf_eq_entry {segment : List UInt8} {name : RawText}
    (h : stepOf segment = some (.entry name)) :
    segment = name.bytes ∧ FileSystem.isEntryName name = true := by
  unfold stepOf at h
  split at h
  · cases h
  · next some =>
    split at h
    · cases h
    · next other =>
      cases h
      exact ⟨rfl, FileSystem.isEntryName_iff.2 ⟨some, other⟩⟩

/-- An entry that a path names is one of its segments. -/
theorem segment_of_mem_components {p : Path} {name : RawText} (h : .entry name ∈ p.components) :
    name.bytes ∈ segmentsOf p.bytes ∧ FileSystem.isEntryName name = true := by
  have step : .entry name ∈ (segmentsOf p.bytes).filterMap stepOf := by
    unfold components at h
    dsimp only at h
    split at h
    · exact (List.mem_cons.1 h).resolve_left nofun
    · split at h
      · exact (List.mem_cons.1 h).resolve_left nofun
      · exact h
  obtain ⟨segment, hsegment, hstep⟩ := List.mem_filterMap.1 step
  obtain ⟨rfl, entry⟩ := stepOf_eq_entry hstep
  exact ⟨hsegment, entry⟩

/-- **An entry that a path names is a single step**, and is written in the path. -/
theorem isStep_of_mem_components {p : Path} {name : RawText} (h : .entry name ∈ p.components) :
    name.IsStep ∧ name.bytes.Sublist p.bytes := by
  obtain ⟨hsegment, entry⟩ := segment_of_mem_components h
  exact ⟨⟨entry, slash_notMem_of_mem_segmentsOf hsegment⟩, sublist_of_mem_segmentsOf hsegment⟩

theorem fileName?_eq_some_iff {p : Path} {name : RawText} :
    p.fileName? = some name ↔ p.components.getLast? = some (.entry name) := by
  unfold fileName?
  split
  · next last => simp [last]
  · next other => exact ⟨nofun, fun last => absurd last (other name)⟩

/-- **A base name is a single step**, and is written in the path. -/
theorem isStep_of_fileName? {p : Path} {name : RawText} (h : p.fileName? = some name) :
    name.IsStep ∧ name.bytes.Sublist p.bytes :=
  isStep_of_mem_components (List.mem_of_getLast? (fileName?_eq_some_iff.1 h))

/-- **Without a slash a path is its own base name**, if it has one. -/
theorem fileName?_of_notMem {p : Path} {name : RawText} (h : p.fileName? = some name)
    (plain : slash ∉ p.bytes) : p.bytes = name.bytes := by
  have last := List.mem_of_getLast? (fileName?_eq_some_iff.1 h)
  have only := (segment_of_mem_components last).1
  rw [segmentsOf_of_notMem plain] at only
  exact (List.mem_singleton.1 only).symm

end ArtifactCourier.Path
