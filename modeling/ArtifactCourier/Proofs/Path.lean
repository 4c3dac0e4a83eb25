/-
  ArtifactCourier.Proofs.Path
  ──────────────────────────────────────
  **The segments of a path, and of the path of an entry.**

    • `segmentsOf_append` — a slash ends a segment,
    • `segmentsOf_lastStep` — a path is the way to its last step, that step, and slashes,
    • `segmentsOf_join` — an entry of a directory is one step further than the directory,
    • `fileName?_join` — an entry is called by its own name,
    • `ofString_of_toString?` — a name that is text is spelled by its text.
-/
import ArtifactCourier.Path

namespace ArtifactCourier

/-! ## §1. Names. -/

namespace RawText

/-- **A name that is text is spelled by its text.** -/
theorem ofString_of_toString? {t : RawText} {s : String} (h : t.toString? = some s) :
    ofString s = t := by
  unfold toString? String.fromUTF8? at h
  split at h
  · next valid =>
    have bytes : s.toByteArray = t.bytes.toByteArray := by
      cases h
      rfl
    rw [← toByteArray_ofString] at bytes
    have same : (ofString s).bytes = t.bytes := by
      simpa using congrArg (fun b => b.data.toList) bytes
    rcases hs : ofString s with ⟨_⟩
    rw [hs] at same
    cases same
    rfl
  · cases h

theorem ofString_append (a b : String) : ofString (a ++ b) = ofString a ++ ofString b := by
  show (⟨_⟩ : RawText) = ⟨_⟩
  rw [String.toList_append, List.flatMap_append]
  rfl

end RawText

namespace Path

/-! ## §2. Segments. -/

theorem segmentsOf_ne_nil (bytes : List UInt8) : segmentsOf bytes ≠ [] := by
  cases bytes with
  | nil => simp [segmentsOf]
  | cons b bs =>
    rw [segmentsOf]
    split
    · simp
    · split <;> simp

/-- There is no slash within a segment. -/
theorem slash_notMem_of_mem_segmentsOf {bytes segment : List UInt8}
    (h : segment ∈ segmentsOf bytes) : slash ∉ segment := by
  induction bytes generalizing segment with
  | nil =>
    cases List.mem_singleton.1 h
    exact List.not_mem_nil
  | cons b bs ih =>
    rw [segmentsOf] at h
    split at h
    · rcases List.mem_cons.1 h with rfl | h
      · exact List.not_mem_nil
      · exact ih h
    · next hb =>
      split at h
      · next hs => exact absurd hs (segmentsOf_ne_nil bs)
      · next s ss hs =>
        rw [hs] at ih
        rcases List.mem_cons.1 h with rfl | h
        · intro hmem
          rcases List.mem_cons.1 hmem with rfl | hmem
          · exact hb rfl
          · exact ih List.mem_cons_self hmem
        · exact ih (List.mem_cons_of_mem _ h)

/-- What holds no slash is a single segment. -/
theorem segmentsOf_of_notMem {bytes : List UInt8} (h : slash ∉ bytes) :
    segmentsOf bytes = [bytes] := by
  induction bytes with
  | nil => rfl
  | cons b bs ih =>
    obtain ⟨hb, hbs⟩ := not_or.1 fun hor => h (List.mem_cons.2 hor)
    rw [segmentsOf, if_neg (Ne.symm hb), ih hbs]

/-- **A slash ends a segment.** -/
theorem segmentsOf_append (first second : List UInt8) :
    segmentsOf (first ++ slash :: second) = segmentsOf first ++ segmentsOf second := by
  induction first with
  | nil =>
    rw [List.nil_append]
    rfl
  | cons b bs ih =>
    rw [List.cons_append, segmentsOf, segmentsOf, ih]
    split
    · rfl
    · rcases hs : segmentsOf bs with _ | ⟨s, ss⟩
      · exact absurd hs (segmentsOf_ne_nil bs)
      · rfl

/-- **A path is the way to its last step, that step, and slashes.** -/
theorem segmentsOf_lastStep {p : Path} {before : List (List UInt8)} {name : List UInt8}
    (h : p.lastStep = (before, name)) (hname : name ≠ []) :
    ∃ empties, (∀ e ∈ empties, e = []) ∧ segmentsOf p.bytes = before ++ name :: empties := by
  unfold lastStep at h
  -- Read backwards, a path begins with its empty segments.
  have parts := List.takeWhile_append_dropWhile (p := List.isEmpty)
    (l := (segmentsOf p.bytes).reverse)
  split at h
  · cases h
    exact absurd rfl hname
  · next last early hdrop =>
    cases h
    rw [hdrop] at parts
    refine ⟨((segmentsOf p.bytes).reverse.takeWhile List.isEmpty).reverse, ?_, ?_⟩
    · intro e he
      exact List.isEmpty_iff.1 (List.all_eq_true.1 List.all_takeWhile e (List.mem_reverse.1 he))
    · have forward := congrArg List.reverse parts
      rw [List.reverse_append, List.reverse_cons, List.reverse_reverse,
        List.append_assoc] at forward
      exact forward.symm

/-! ## §3. Entries of a directory. -/

theorem head?_ne_slash {name : RawText} (h : slash ∉ name.bytes) :
    name.bytes.head? ≠ some slash := by
  intro hhead
  exact h (List.mem_of_mem_head? hhead)

/-- How the path of an entry is written. -/
theorem bytes_join {dir : Path} {name : RawText} (hdir : dir.bytes ≠ [])
    (hname : slash ∉ name.bytes) :
    (dir.join name).bytes =
      if dir.endsWithSlash then dir.bytes ++ name.bytes else dir.bytes ++ slash :: name.bytes := by
  unfold join
  rw [if_neg (not_or.2 ⟨head?_ne_slash hname, hdir⟩)]
  split
  · rfl
  · show (dir.text.bytes ++ [slash]) ++ name.bytes = _
    rw [List.append_assoc]
    rfl

/-- **An entry is one step further than the directory.** -/
theorem segmentsOf_join {dir : Path} {name : RawText} {before empties : List (List UInt8)}
    {last : List UInt8} (hlast : last ≠ []) (hempties : ∀ e ∈ empties, e = [])
    (hdir : segmentsOf dir.bytes = before ++ last :: empties) (hname : slash ∉ name.bytes) :
    ∃ fewer, (∀ e ∈ fewer, e = []) ∧
      segmentsOf (dir.join name).bytes = before ++ last :: (fewer ++ [name.bytes]) := by
  have written : dir.bytes ≠ [] := by
    intro hnil
    rw [hnil] at hdir
    rcases before with _ | ⟨_, _ | _⟩ <;> simp [segmentsOf] at hdir
    exact hlast hdir.1
  rw [bytes_join written hname]
  cases hslash : dir.endsWithSlash with
  | false =>
    -- The slash that is put in between ends the last segment of the directory.
    refine ⟨empties, hempties, ?_⟩
    rw [if_neg (by decide), segmentsOf_append, hdir, segmentsOf_of_notMem hname]
    simp
  | true =>
    obtain ⟨early, hearly⟩ : ∃ early, dir.bytes = early ++ [slash] := by
      apply List.getLast?_eq_some_iff.1
      simpa [endsWithSlash] using hslash
    -- The slash at the end is the last of the empty segments.
    have ends : segmentsOf early ++ [[]] = before ++ last :: empties := by
      rw [← hdir, hearly, segmentsOf_append]
      rfl
    obtain ⟨fewer, rfl⟩ : ∃ fewer, empties = fewer ++ [[]] := by
      rcases List.eq_nil_or_concat empties with rfl | ⟨fewer, e, rfl⟩
      · have same := congrArg List.getLast? ends
        simp at same
        exact absurd same hlast
      · rw [hempties e (by simp)]
        exact ⟨fewer, by simp⟩
    refine ⟨fewer, fun e he => hempties e (List.mem_append_left _ he), ?_⟩
    have way : segmentsOf early = before ++ last :: fewer := by
      have longer : segmentsOf early ++ [[]] = (before ++ last :: fewer) ++ [[]] := by
        rw [ends]
        simp
      exact List.append_cancel_right longer
    rw [if_pos rfl, hearly, List.append_assoc]
    show segmentsOf (early ++ slash :: name.bytes) = _
    rw [segmentsOf_append, way, segmentsOf_of_notMem hname]
    simp

theorem isAbsolute_join {dir : Path} {name : RawText} (hdir : dir.bytes ≠ [])
    (hname : slash ∉ name.bytes) : (dir.join name).isAbsolute = dir.isAbsolute := by
  unfold isAbsolute
  rw [bytes_join hdir hname]
  rcases hbytes : dir.bytes with _ | ⟨b, bs⟩
  · exact absurd hbytes hdir
  · split <;> rfl

theorem endsWithSlash_join {dir : Path} {name : RawText} (hdir : dir.bytes ≠ [])
    (hname : slash ∉ name.bytes) (hne : name.bytes ≠ []) :
    (dir.join name).endsWithSlash = false := by
  obtain ⟨last, hlast⟩ : ∃ last, name.bytes.getLast? = some last := by
    exact ⟨_, List.getLast?_eq_some_getLast hne⟩
  have same : (dir.join name).bytes.getLast? = some last := by
    rw [bytes_join hdir hname]
    split
    · rw [List.getLast?_append, hlast]
      rfl
    · rw [List.getLast?_append, List.getLast?_cons, hlast]
      rfl
  unfold endsWithSlash
  rw [same]
  apply beq_eq_false_iff_ne.2
  intro given
  cases given
  exact hname (List.mem_of_getLast? hlast)

/-! ## §4. Names. -/

/-- A single step takes that step. -/
theorem components_of_step {name : RawText} (hstep : stepOf name.bytes = some (.entry name))
    (hname : slash ∉ name.bytes) : components ⟨name⟩ = [.entry name] := by
  have segments : segmentsOf (Path.mk name).bytes = [name.bytes] := segmentsOf_of_notMem hname
  have relative : (Path.mk name).isAbsolute = false := by
    unfold isAbsolute
    exact beq_eq_false_iff_ne.2 (head?_ne_slash hname)
  have not_here : name.bytes ≠ [dot] := by
    intro same
    rw [same] at hstep
    cases hstep
  unfold components
  rw [relative, segments]
  simp [not_here, hstep]

/-- The last step of the path of an entry is its name, whatever stands in front of it. -/
theorem segmentsOf_join_last (dir : Path) {name : RawText} (hname : slash ∉ name.bytes) :
    ∃ before, segmentsOf (dir.join name).bytes = before ++ [name.bytes] := by
  by_cases hdir : dir.bytes = []
  · refine ⟨[], ?_⟩
    unfold join
    rw [if_pos (Or.inr hdir)]
    exact segmentsOf_of_notMem hname
  · rw [bytes_join hdir hname]
    cases hslash : dir.endsWithSlash with
    | false =>
      refine ⟨segmentsOf dir.bytes, ?_⟩
      rw [if_neg (by decide), segmentsOf_append, segmentsOf_of_notMem hname]
    | true =>
      obtain ⟨early, hearly⟩ : ∃ early, dir.bytes = early ++ [slash] := by
        apply List.getLast?_eq_some_iff.1
        simpa [endsWithSlash] using hslash
      refine ⟨segmentsOf early, ?_⟩
      rw [if_pos rfl, hearly, List.append_assoc]
      exact (segmentsOf_append early name.bytes).trans (by rw [segmentsOf_of_notMem hname])

/-- **An entry is called by its own name.** -/
theorem fileName?_join (dir : Path) {name : RawText}
    (hstep : stepOf name.bytes = some (.entry name)) (hname : slash ∉ name.bytes) :
    (dir.join name).fileName? = some name := by
  obtain ⟨before, segments⟩ := segmentsOf_join_last dir hname
  have steps : ∃ early, (dir.join name).components = early ++ [.entry name] := by
    have last : (before ++ [name.bytes]).filterMap stepOf
        = before.filterMap stepOf ++ [.entry name] := by
      rw [List.filterMap_append]
      simp [hstep]
    unfold components
    rw [segments]
    dsimp only
    rw [last]
    split
    · exact ⟨.root :: before.filterMap stepOf, rfl⟩
    · split
      · exact ⟨.here :: before.filterMap stepOf, rfl⟩
      · exact ⟨before.filterMap stepOf, rfl⟩
  obtain ⟨early, steps⟩ := steps
  unfold fileName?
  rw [steps, List.getLast?_concat]

end Path
end ArtifactCourier
