/-
  ArtifactCourier.Proofs.Tar.LongNames
  ──────────────────────────────────────
  **Every name of a file can be archived.**

  A name that does not fit into its field is cut off there and stands in full in front of the
  member.  What is left in the field is not checked as a name is: it may look like a step
  upward, and need only be something.

    • `store_cutOff` — what is left of a name can be stored,
    • `exists_ofPath` — a step that is text is the name of a member,
    • `exists_membersOf_iff`, `exists_membersOf` — when a regular file can be archived.
-/
import ArtifactCourier.Proofs.Tar.Members
import ArtifactCourier.Proofs.Text.Utf8

namespace ArtifactCourier.Tar

/-- **What is left of a name can be stored**: something short without a slash. -/
theorem store_cutOff {left : RawText} (some : left.bytes ≠ []) (plain : Path.slash ∉ left.bytes)
    (short : left.bytes.length ≤ maxName) : ∃ field, store true ⟨left⟩ = .ok field := by
  have segments : Path.segmentsOf left.bytes = [left.bytes] := Path.segmentsOf_of_notMem plain
  have relative : (Path.mk left).isAbsolute = false :=
    beq_eq_false_iff_ne.2 (Path.head?_ne_slash plain)
  have no_slash : (Path.mk left).endsWithSlash = false :=
    beq_eq_false_iff_ne.2 fun last => plain (List.mem_of_getLast? last)
  by_cases dot : left.bytes = [Path.dot]
  · have steps : (Path.mk left).components = [.here] := by
      unfold Path.components
      rw [relative, Path.bytes, segments, dot]
      rfl
    exact ⟨[Path.dot], by simp [store, steps, extend, maxName, no_slash, bind, Except.bind]⟩
  · by_cases dots : left.bytes = [Path.dot, Path.dot]
    · have steps : (Path.mk left).components = [.up] := by
        unfold Path.components
        rw [relative, Path.bytes, segments, dots]
        rfl
      exact ⟨[Path.dot, Path.dot],
        by simp [store, steps, storeSteps, extend, maxName, no_slash, bind, Except.bind]⟩
    · have entry : Path.stepOf left.bytes = Option.some (.entry left) := by
        rw [Path.stepOf, if_neg (not_or.2 ⟨some, dot⟩), if_neg dots]
      have steps := Path.components_of_step entry plain
      exact ⟨left.bytes, by
        simp [store, steps, storeSteps, extend, short, some, no_slash, bind, Except.bind]⟩

/-- **A step that is text is the name of a member**, however long it is. -/
theorem exists_ofPath {name : RawText} {s : String} (step : name.IsStep)
    (text : name = RawText.ofString s) : ∃ stored, MemberName.ofPath ⟨name⟩ = .ok stored := by
  rw [MemberName.ofPath, store_step step]
  by_cases short : name.bytes.length ≤ maxName
  · rw [if_pos short]
    exact ⟨_, rfl⟩
  · rw [if_neg short]
    have long : ¬ (Path.mk name).bytes.length < maxName := fun given => short (Nat.le_of_lt given)
    have nonempty : name.bytes ≠ [] := by
      intro given
      rw [given] at short
      exact short (Nat.zero_le _)
    -- What is left is part of the name, so there is no slash in it.
    obtain ⟨left, cut⟩ : ∃ left : RawText,
        RawText.wholeChars (name.bytes.take maxName) = left.bytes := ⟨⟨_⟩, rfl⟩
    have within : left.bytes.Sublist (name.bytes.take maxName) := by
      rw [← cut]
      exact List.take_sublist _ _
    have something : left.bytes ≠ [] := by
      rw [← cut]
      exact RawText.wholeChars_take_ne_nil text nonempty (by decide)
    have plain : Path.slash ∉ left.bytes := fun slash =>
      step.2 ((List.take_sublist _ _).mem (within.mem slash))
    have fits : left.bytes.length ≤ maxName :=
      Nat.le_trans within.length_le (List.length_take_le _ _)
    obtain ⟨field, stored⟩ := store_cutOff something plain fits
    dsimp only
    rw [if_neg long, Path.bytes, cut, stored]
    exact ⟨_, rfl⟩

/-- **A regular file can be archived** if and only if its name can be that of a member. -/
theorem exists_membersOf_iff (path : Path) {name : RawText} {n : Node} (owner : Owner)
    (regular : n.isFile = true) :
    (∃ members, membersOf path name n owner = .ok members) ↔
      ∃ stored, MemberName.ofPath ⟨name⟩ = .ok stored := by
  obtain ⟨kind, mode, mtime⟩ := n
  cases kind with
  | file content =>
    rw [membersOf]
    dsimp only
    rw [underName]
    cases MemberName.ofPath ⟨name⟩ <;> simp
  | _ => cases regular

/-- So it can be under a step that is text. -/
theorem exists_membersOf (path : Path) {name : RawText} {s : String} {n : Node} (owner : Owner)
    (step : name.IsStep) (text : name = RawText.ofString s) (regular : n.isFile = true) :
    ∃ members, membersOf path name n owner = .ok members :=
  (exists_membersOf_iff path owner regular).2 (exists_ofPath step text)

end ArtifactCourier.Tar
