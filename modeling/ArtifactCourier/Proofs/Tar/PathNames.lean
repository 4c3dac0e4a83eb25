/-
  ArtifactCourier.Proofs.Tar.PathNames
  ──────────────────────────────────────
  **The name under which a path is archived.**

  A path that is a member's name is written step by step, with slashes between, or stands in a
  record of its own as it is.  Either way an extractor gets one name (`pathName`), and a slash
  in it is the sign of a directory: without one it is the base name.

    • `storeSteps_entry` — one step more,
    • `storeSteps_onward`, `storeSteps_single` — only a single step is written without a slash,
    • `pathName_eq_iff` — when a path is archived under its base name,
    • `spelled_of_ofPath` — what is stored of a path spells its name,
    • `exists_soleMember` — the archive of anything has one member, under that name.
-/
import ArtifactCourier.Proofs.FileSystem.BaseName
import ArtifactCourier.Proofs.Tar.Members

namespace ArtifactCourier.Tar

/-! ## §1. Steps. -/

theorem extend_eq_ok {name bytes longer : List UInt8} :
    extend name bytes = .ok longer ↔
      name.length + bytes.length ≤ maxName ∧ longer = name ++ bytes := by
  unfold extend
  by_cases h : name.length + bytes.length ≤ maxName
  · simp [h, eq_comm]
  · simp [h]

/-- A name with what stands between it and the next step. -/
def lead (name : List UInt8) : List UInt8 := if name.isEmpty then name else name ++ [Path.slash]

/-- **One step more**, if it fits. -/
theorem storeSteps_entry {name stored : List UInt8} {step : RawText} {rest : List Path.Component} :
    storeSteps false name (.entry step :: rest) = .ok stored ↔
      (lead name ++ step.bytes).length ≤ maxName ∧
        storeSteps false (lead name ++ step.bytes) rest = .ok stored := by
  rw [storeSteps, lead]
  by_cases empty : name.isEmpty
  · rw [if_pos empty, if_pos empty, List.length_append]
    unfold extend
    by_cases short : name.length + step.bytes.length ≤ maxName
    · simp [short, bind, Except.bind]
    · simp [short, bind, Except.bind]
  · rw [if_neg empty, if_neg empty, List.length_append, List.length_append, List.length_singleton]
    unfold extend
    by_cases slash : name.length + 1 ≤ maxName
    · by_cases short : name.length + 1 + step.bytes.length ≤ maxName
      · simp [slash, short, bind, Except.bind]
      · simp [slash, short, bind, Except.bind]
    · have long : ¬ name.length + 1 + step.bytes.length ≤ maxName := by omega
      simp [slash, long, bind, Except.bind]

variable {name stored : List UInt8} {steps : List Path.Component}

/-- **An invariant of the name that is written**: what holds of it at first, and goes on holding
with each step, holds of it at the end. -/
theorem storeSteps_induction (holds : List UInt8 → Prop)
    (onward : ∀ name step, .entry step ∈ steps → holds name →
      (lead name ++ step.bytes).length ≤ maxName → holds (lead name ++ step.bytes))
    (first : holds name) (h : storeSteps false name steps = .ok stored) : holds stored := by
  induction steps generalizing name with
  | nil =>
    cases h
    exact first
  | cons step rest ih =>
    have later : ∀ name step, .entry step ∈ rest → holds name →
        (lead name ++ step.bytes).length ≤ maxName → holds (lead name ++ step.bytes) :=
      fun name step hstep => onward name step (List.mem_cons_of_mem _ hstep)
    cases step with
    | root => cases h
    | up => cases h
    | here => exact ih later first h
    | entry step =>
      obtain ⟨short, h⟩ := storeSteps_entry.1 h
      exact ih later (onward name step List.mem_cons_self first short) h

theorem storeSteps_short (first : name.length ≤ maxName)
    (h : storeSteps false name steps = .ok stored) : stored.length ≤ maxName :=
  storeSteps_induction (fun name => name.length ≤ maxName) (fun _ _ _ _ short => short) first h

/-- No byte is written but those of the steps, and slashes. -/
theorem storeSteps_plain {b : UInt8} (other : b ≠ Path.slash) (first : b ∉ name)
    (plain : ∀ step, .entry step ∈ steps → b ∉ step.bytes)
    (h : storeSteps false name steps = .ok stored) : b ∉ stored := by
  refine storeSteps_induction (fun name => b ∉ name)
    (fun name step hstep hname _ hmem => ?_) first h
  rcases List.mem_append.1 hmem with hmem | hmem
  · unfold lead at hmem
    split at hmem
    · exact hname hmem
    · rcases List.mem_append.1 hmem with hmem | hmem
      · exact hname hmem
      · exact other (List.mem_singleton.1 hmem)
  · exact plain step hstep hmem

/-- What was written stays. -/
theorem storeSteps_mem {b : UInt8} (first : b ∈ name)
    (h : storeSteps false name steps = .ok stored) : b ∈ stored := by
  refine storeSteps_induction (fun name => b ∈ name) (fun name step _ hname _ => ?_) first h
  apply List.mem_append_left
  unfold lead
  split
  · exact hname
  · exact List.mem_append_left _ hname

/-- Behind what was written, a step begins with a slash. -/
theorem storeSteps_onward (some : name ≠ []) (h : storeSteps false name steps = .ok stored) :
    (stored = name ∧ ∀ step, .entry step ∉ steps) ∨ Path.slash ∈ stored := by
  induction steps with
  | nil =>
    cases h
    exact .inl ⟨rfl, fun _ => List.not_mem_nil⟩
  | cons step rest ih =>
    cases step with
    | root => cases h
    | up => cases h
    | here =>
      rcases ih h with ⟨same, none⟩ | slash
      · refine .inl ⟨same, fun step hstep => ?_⟩
        rcases List.mem_cons.1 hstep with given | hstep
        · cases given
        · exact none step hstep
      · exact .inr slash
    | entry step =>
      obtain ⟨-, h⟩ := storeSteps_entry.1 h
      have nonempty : name.isEmpty = false := by simpa using some
      refine .inr (storeSteps_mem (List.mem_append_left _ ?_) h)
      unfold lead
      rw [nonempty]
      exact List.mem_append_right _ List.mem_cons_self

/-- **Only a single step is written without a slash**, and that is the last one. -/
theorem storeSteps_single {base : RawText}
    (nonempty : ∀ step, .entry step ∈ steps → step.bytes ≠ [])
    (last : steps.getLast? = some (.entry base)) (plain : Path.slash ∉ stored)
    (h : storeSteps false [] steps = .ok stored) : stored = base.bytes := by
  induction steps with
  | nil => cases last
  | cons step rest ih =>
    cases step with
    | root => cases h
    | up => cases h
    | here =>
      have later : rest.getLast? = some (.entry base) := by
        cases rest with
        | nil => cases last
        | cons next rest => rwa [List.getLast?_cons_cons] at last
      exact ih (fun step hstep => nonempty step (List.mem_cons_of_mem _ hstep)) later h
    | entry step =>
      obtain ⟨-, h⟩ := storeSteps_entry.1 h
      rcases storeSteps_onward (nonempty step List.mem_cons_self) h with ⟨same, none⟩ | slash
      · cases rest with
        | nil =>
          cases last
          exact same
        | cons next rest =>
          -- The last step is an entry, and no entry follows the first one.
          rw [List.getLast?_cons_cons] at last
          exact absurd (List.mem_of_getLast? last) (none base)
      · exact absurd slash plain

/-! ## §2. Names. -/

/-- **The name under which a path is archived**: its steps with slashes between, if these fit into
the field, and otherwise the path as it is written. -/
def pathName (p : Path) : List UInt8 :=
  match store false p with
  | .ok name => name
  | .error _ => p.bytes

variable {p : Path} {base : RawText}

/-- What is written for a path that has a base name. -/
theorem store_eq_ok (hbase : p.fileName? = some base) :
    store false p = .ok stored ↔
      ∃ name, storeSteps false [] p.components = .ok name ∧ name ≠ [] ∧
        if p.endsWithSlash then extend name [Path.slash] = .ok stored else stored = name := by
  have last := Path.fileName?_eq_some_iff.1 hbase
  have steps : p.components ≠ [.here] := by
    intro given
    rw [given] at last
    cases last
  unfold store
  rw [if_neg steps]
  cases hname : storeSteps false [] p.components with
  | error refusal =>
    constructor
    · intro given
      cases given
    · rintro ⟨_, given, -⟩
      cases given
  | ok name =>
    by_cases empty : name = []
    · subst empty
      constructor
      · intro given
        cases given
      · rintro ⟨_, given, some, -⟩
        cases given
        exact absurd rfl some
    · have nonempty : name.isEmpty = false := by simpa using empty
      have body : ((Except.ok name : Except NameRefusal (List UInt8)) >>= fun name =>
          if name.isEmpty then .error ⟨.empty, name⟩
          else if p.endsWithSlash then extend name [Path.slash] else .ok name)
            = if p.endsWithSlash then extend name [Path.slash] else .ok name := by
        show (if name.isEmpty then _ else _) = _
        rw [nonempty]
        rfl
      rw [body]
      by_cases slash : p.endsWithSlash
      · simp [slash, empty]
      · simp [slash, empty, eq_comm]

/-- What is written of a path fits into the field and is as plain as the path. -/
theorem store_fits (hbase : p.fileName? = some base) (plain : 0 ∉ p.bytes)
    (h : store false p = .ok stored) : stored.length ≤ maxName ∧ 0 ∉ stored := by
  obtain ⟨name, hname, -, hstored⟩ := (store_eq_ok hbase).1 h
  have zero : (0 : UInt8) ≠ Path.slash := by decide
  have steps : ∀ step, .entry step ∈ p.components → 0 ∉ step.bytes := fun step hstep hzero =>
    plain ((Path.isStep_of_mem_components hstep).2.mem hzero)
  have short := storeSteps_short (Nat.zero_le _) hname
  have written := storeSteps_plain zero List.not_mem_nil steps hname
  split at hstored
  · obtain ⟨fits, rfl⟩ := extend_eq_ok.1 hstored
    rw [List.length_append]
    refine ⟨fits, fun hzero => ?_⟩
    rcases List.mem_append.1 hzero with hzero | hzero
    · exact written hzero
    · exact zero (List.mem_singleton.1 hzero)
  · obtain rfl := hstored
    exact ⟨short, written⟩

theorem pathName_plain (hbase : p.fileName? = some base) (plain : 0 ∉ p.bytes) :
    0 ∉ pathName p := by
  unfold pathName
  split
  · next stored hstored => exact (store_fits hbase plain hstored).2
  · exact plain

theorem length_pathName (hbase : p.fileName? = some base) (plain : 0 ∉ p.bytes)
    (short : p.bytes.length < FileSystem.maxPathLength) :
    (pathName p).length < FileSystem.maxPathLength := by
  unfold pathName
  split
  · next stored hstored =>
    exact Nat.lt_of_le_of_lt (store_fits hbase plain hstored).1 (by decide)
  · exact short

/-- **A path is archived under its base name exactly if that leaves no slash**: if nothing but dots
leads to it, or nothing at all where the name does not fit into the field. -/
theorem pathName_eq_iff (hbase : p.fileName? = some base) :
    pathName p = base.bytes ↔ Path.slash ∉ pathName p := by
  constructor
  · intro same
    rw [same]
    exact (Path.isStep_of_fileName? hbase).1.2
  · intro plain
    unfold pathName at plain ⊢
    split at plain
    · next stored hstored =>
      obtain ⟨name, hname, -, ended⟩ := (store_eq_ok hbase).1 hstored
      split at ended
      · -- A slash at the end is kept.
        obtain ⟨-, rfl⟩ := extend_eq_ok.1 ended
        exact absurd (List.mem_append_right _ List.mem_cons_self) plain
      · obtain rfl := ended
        have nonempty : ∀ step, .entry step ∈ p.components → step.bytes ≠ [] := fun step hstep =>
          (FileSystem.isEntryName_iff.1 (Path.isStep_of_mem_components hstep).1.1).1 ∘ .inl
        exact storeSteps_single nonempty (Path.fileName?_eq_some_iff.1 hbase) plain hname
    · exact Path.fileName?_of_notMem hbase plain

/-- The name of a single step is the step. -/
theorem pathName_step (step : base.IsStep) : pathName ⟨base⟩ = base.bytes := by
  unfold pathName
  rw [store_step step]
  by_cases short : base.bytes.length ≤ maxName
  · rw [if_pos short]
  · rw [if_neg short]
    rfl

/-- **What is stored of a path spells its name**: in the field, or in a record in front. -/
theorem spelled_of_ofPath (hbase : p.fileName? = some base) (plain : 0 ∉ p.bytes)
    {stored : MemberName} (h : MemberName.ofPath p = .ok stored) :
    (stored = ⟨pathName p, none⟩ ∧ (pathName p).length ≤ maxName)
      ∨ stored.full = some (pathName p) := by
  unfold MemberName.ofPath at h
  unfold pathName
  cases hname : store false p with
  | ok name =>
    rw [hname] at h
    cases h
    exact .inl ⟨rfl, (store_fits hbase plain hname).1⟩
  | error refusal =>
    rw [hname] at h
    dsimp only at h
    split at h
    · cases h
    · split at h
      · cases h
        exact .inr rfl
      · cases h

/-! ## §3. The member. -/

/-- **A stream archives one member**: there is its record, and perhaps a record of a long name in
front of it, and an extractor makes one thing of them. -/
structure SoleMember (stream : ByteArray) (m : Extracted) : Prop where
  records : ∃ r, r.flag ≠ MemberKind.longName.flag ∧
    (records? stream = some [r] ∨
      ∃ long, records? stream = some [long, r] ∧ long.flag = MemberKind.longName.flag)
  extracted : members? stream = some [m]

/-- What is archived under the name of a path is one member of that name. -/
theorem soleMember_of_underName (hbase : p.fileName? = some base) (plain : 0 ∉ p.bytes)
    (short : p.bytes.length < FileSystem.maxPathLength) {member : List UInt8 → Member}
    (named_so : ∀ field, (member field).header.name = field)
    (stated : ∀ field, (member field).Stated)
    (notName : ∀ field, (member field).record.flag ≠ MemberKind.longName.flag)
    {members : List Member} (h : underName p member = .ok members) :
    ∃ m, SoleMember (archive members) m ∧ m.name = pathName p := by
  unfold underName at h
  split at h
  case h_2 => cases h
  case h_1 stored hstored =>
    cases h
    have spelled := spelled_of_ofPath hbase plain hstored
    have fits : (pathName p).length + 1 < maxNumber :=
      Nat.lt_of_le_of_lt (length_pathName hbase plain short) (by decide)
    obtain ⟨m, hname, extracted⟩ : ∃ m : Extracted, m.name = pathName p ∧
        extractFrom none ((named stored (member stored.field)).map Member.record) = [m] :=
      ⟨_, rfl, extractFrom_spelled spelled (pathName_plain hbase plain)
        (named_so stored.field) (notName stored.field)⟩
    refine ⟨m, ?_, hname⟩
    have own := stated stored.field
    rcases spelled with ⟨rfl, -⟩ | long
    · have all : ∀ m ∈ [member (pathName p)], m.Stated := by simpa using own
      have read := records?_archive all
      refine ⟨⟨_, notName _, .inl read⟩, ?_⟩
      exact (congrArg (Option.map (extractFrom none)) read).trans (congrArg some extracted)
    · have behind : named stored (member stored.field)
          = [longNameRecord (pathName p), member stored.field] := by
        unfold named
        rw [long]
      rw [behind] at extracted ⊢
      have all : ∀ m ∈ [longNameRecord (pathName p), member stored.field], m.Stated := by
        simpa using ⟨longNameRecord_stated fits, own⟩
      have read := records?_archive all
      refine ⟨⟨_, notName _, .inr ⟨_, read, rfl⟩⟩, ?_⟩
      exact (congrArg (Option.map (extractFrom none)) read).trans (congrArg some extracted)

/-- The path that gives a node its name in an archive: the base name for files and directories, and
the path that leads to it for pipes and devices. -/
def namingPath (path : Path) (name : RawText) (n : Node) : Path :=
  if n.isFile || n.isDirectory then ⟨name⟩ else path

/-- **The archive of anything has one member**, under the name of its naming path. -/
theorem exists_soleMember {path : Path} {n : Node} {owner : Owner} (hbase : path.fileName? = some base)
    (plain : 0 ∉ path.bytes) (short : path.bytes.length < FileSystem.maxPathLength)
    (fits : n.size < maxNumber) {members : List Member}
    (h : membersOf path base n owner = .ok members) :
    ∃ m, SoleMember (archive members) m ∧ m.name = pathName (namingPath path base n) := by
  obtain ⟨step, within⟩ := Path.isStep_of_fileName? hbase
  -- A base name is its own base name, and is as plain and as short as the path.
  have hbase' : (Path.mk base).fileName? = some base :=
    Path.fileName?_eq_some_iff.2
      (by rw [Path.components_of_step (stepOf_of_isStep step) step.2]; rfl)
  have plain' : 0 ∉ (Path.mk base).bytes := fun zero => plain (within.mem zero)
  have short' : (Path.mk base).bytes.length < FileSystem.maxPathLength :=
    Nat.lt_of_le_of_lt within.length_le short
  have empty {kind : MemberKind} (whole : kind.extents = []) (device : Option (Nat × Nat))
      (field : List UInt8) : (emptyMember field n owner kind device).Stated :=
    ⟨rfl, maxNumber_pos, fun e listed => absurd (whole ▸ listed) List.not_mem_nil⟩
  have flag {kind : MemberKind} (other : kind.flag ≠ MemberKind.longName.flag)
      (device : Option (Nat × Nat)) (field : List UInt8) :
      (emptyMember field n owner kind device).record.flag ≠ MemberKind.longName.flag := other
  obtain ⟨kind, mode, mtime⟩ := n
  cases kind with
  | file content =>
    refine soleMember_of_underName hbase' plain' short' (fun field => ?_)
      (fun field => fileMember_stated field _ owner fits)
      (fun field => (fileMember_record field _ owner fits).notName) h
    unfold fileMember
    split <;> rfl
  | directory entries parent =>
    exact soleMember_of_underName hbase' plain' short' (fun _ => rfl) (empty rfl _)
      (flag (by decide) _) h
  | fifo =>
    exact soleMember_of_underName hbase plain short (fun _ => rfl) (empty rfl _)
      (flag (by decide) _) h
  | nullDevice =>
    exact soleMember_of_underName hbase plain short (fun _ => rfl) (empty rfl _)
      (flag (by decide) _) h
  | fullDevice =>
    exact soleMember_of_underName hbase plain short (fun _ => rfl) (empty rfl _)
      (flag (by decide) _) h
  | symlink target => cases h
  | socket => cases h

end ArtifactCourier.Tar
