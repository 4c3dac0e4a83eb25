/-
  ArtifactCourier.Proofs.Store.Discipline
  ──────────────────────────────────────
  **What an upload in parts sends, and when.**

  A service that keeps parts relies on the order in which they come: one after the other, each
  only once, and nothing after the upload was completed or given up.  This holds whatever the
  answers are, those to the questions about the file included.

    • `Turn.failure?` — the failure that an answer means for the parts,
    • `Progress` — turns so far in which nothing failed, with the parts that have tags,
    • `progress_sendPartsFrom` — the parts go on from any progress, to their end or to a failure,
    • `large_cases` — the two ways of an upload that was opened,
    • `multipart_discipline` — the law.
-/
import ArtifactCourier.Proofs.Store.Dialogue

namespace ArtifactCourier.Store

/-! ## §1. What a turn says. -/

/-- The upload that a request is about, if it is about one that was opened. -/
def Request.uploadId? : Request → Option String
  | uploadPart _ uploadId _ _ _ => some uploadId
  | completeMultipart _ uploadId _ => some uploadId
  | abortMultipart _ uploadId => some uploadId
  | _ => none

/-- The number of the part that a request sends, if it sends one. -/
def Request.partNumber? : Request → Option Nat
  | uploadPart _ _ number _ _ => some number
  | _ => none

/-- **The failure that a turn means for the parts of a file**, if it means one: the file cannot be
opened, a part cannot be read or not in full, or a part is refused or gets no tag. -/
def Turn.failure? (path : Path) : Turn → Option Failure
  | openFile _ (.error e) => some ((Failure.ofFile e).within (.openParts path))
  | readAt _ offset _ (.error e) =>
    some ((Failure.ofFile e).within (.readPart (offset / Defaults.partSize + 1) path))
  | readAt _ offset length (.ok body) =>
    if body.size < length then some ⟨.readPart (offset / Defaults.partSize + 1) path, [.earlyEof]⟩
    else none
  | send (.uploadPart _ _ number _ _) (.error e) => some (.ofProblem (.sendPart number e.text))
  | send (.uploadPart _ _ _ _ _) (.ok none) => some (.ofProblem .noETag)
  | _ => none

/-- A part is read from where it starts. -/
theorem partStart_div {number : Nat} (h : 0 < number) :
    partStart number / Defaults.partSize + 1 = number := by
  unfold partStart
  rw [Nat.mul_div_cancel _ (by decide)]
  omega

namespace Upload

/-- The requests among some turns, in order. -/
def requests (turns : List Turn) : List Request := turns.filterMap Turn.request?

variable {turns first second : List Turn} {t : Turn}

@[simp] theorem requests_nil : requests [] = [] := rfl

@[simp] theorem requests_append :
    requests (first ++ second) = requests first ++ requests second :=
  List.filterMap_append

@[simp] theorem requests_cons_send {r : Request} {answer : Except ServiceError Reply} :
    requests (.send r answer :: turns) = r :: requests turns := rfl

theorem requests_cons_of_silent (h : t.request? = none) :
    requests (t :: turns) = requests turns := List.filterMap_cons_none h

/-! ## §2. Progress. -/

/-- **Requests that send the parts 1, 2, 3 and so on** of one upload, `count` of them. -/
def Ordered (address : Address) (uploadId : String) (sent : List Request) (count : Nat) : Prop :=
  (∀ r ∈ sent, IsPartOf address uploadId r) ∧
    sent.map Request.partNumber? = (List.range' 1 count).map some

theorem Ordered.nil {address : Address} {uploadId : String} : Ordered address uploadId [] 0 :=
  ⟨fun _ hr => absurd hr List.not_mem_nil, rfl⟩

/-- The next part. -/
theorem Ordered.snoc {address : Address} {uploadId : String} {sent : List Request} {count : Nat}
    (h : Ordered address uploadId sent count) (body : ByteArray) :
    Ordered address uploadId (sent ++ [.part address uploadId (count + 1) body]) (count + 1) := by
  constructor
  · intro r hr
    rcases List.mem_append.1 hr with hr | hr
    · exact h.1 r hr
    · exact ⟨_, body, List.mem_singleton.1 hr⟩
  · rw [List.map_append, h.2, ← List.range'_append_1, List.map_append]
    simp [Request.part, Request.partNumber?, Nat.add_comm]

/-- **Turns in which nothing failed**, with the parts that were stored: each part is sent once
those with smaller numbers have tags. -/
inductive Progress (address : Address) (uploadId : String) (path : Path) :
    List StoredPart → List Turn → Prop
  | begin : Progress address uploadId path [] []
  | ask {listed : List StoredPart} {turns : List Turn} {t : Turn} :
      Progress address uploadId path listed turns → t.request? = none → t.failure? path = none →
      Progress address uploadId path listed (turns ++ [t])
  | part {listed : List StoredPart} {turns : List Turn} (body : ByteArray) (tag : String) :
      Progress address uploadId path listed turns →
      Progress address uploadId path (listed ++ [⟨listed.length + 1, tag⟩])
        (turns ++ [.send (.part address uploadId (listed.length + 1) body) (.ok (some tag))])

/-- Some part of the number was sent among the turns, and got a tag. -/
def Tagged (address : Address) (uploadId : String) (turns : List Turn) (p : StoredPart) : Prop :=
  ∃ body, .send (.part address uploadId p.number body) (.ok (some p.tag)) ∈ turns

/-- The turn that stops an upload once some parts are stored: a question about the file, or the
request that sends the next part. -/
structure Stops (address : Address) (uploadId : String) (path : Path) (listed : List StoredPart)
    (t : Turn) (f : Failure) : Prop where
  failure : t.failure? path = some f
  next : t.request? = none ∨
    ∃ body answer, t = .send (.part address uploadId (listed.length + 1) body) answer

/-- Turns at the end that neither send anything nor fail. -/
def Quiet (path : Path) (turns : List Turn) : Prop :=
  ∀ t ∈ turns, t.request? = none ∧ t.failure? path = none

/-- An element of an append is in the first list or in the second. -/
theorem split_append {α : Type} {before after clean rest : List α} {x : α}
    (h : before ++ x :: after = clean ++ rest) :
    (∃ mid, clean = before ++ x :: mid ∧ after = mid ++ rest) ∨
      ∃ mid, before = clean ++ mid ∧ rest = mid ++ x :: after := by
  rcases List.append_eq_append_iff.1 h with ⟨_ | ⟨y, mid⟩, hclean, hrest⟩ | ⟨mid, hbefore, hrest⟩
  · exact .inr ⟨[], by simpa using hclean.symm, by simpa using hrest.symm⟩
  · cases hrest
    exact .inl ⟨mid, hclean, rfl⟩
  · exact .inr ⟨mid, hbefore, hrest⟩

variable {address : Address} {uploadId : String} {path : Path} {listed : List StoredPart}

theorem Tagged.append {p : StoredPart} (h : Tagged address uploadId first p) :
    Tagged address uploadId (first ++ second) p :=
  h.imp fun _ hmem => List.mem_append_left _ hmem

namespace Progress

/-- Nothing failed. -/
theorem clean (h : Progress address uploadId path listed turns) :
    ∀ t ∈ turns, t.failure? path = none := by
  induction h with
  | begin => exact fun t ht => absurd ht List.not_mem_nil
  | ask _ _ fine ih =>
    intro t ht
    rcases List.mem_append.1 ht with ht | ht
    · exact ih t ht
    · cases List.mem_singleton.1 ht
      exact fine
  | part body tag _ ih =>
    intro t ht
    rcases List.mem_append.1 ht with ht | ht
    · exact ih t ht
    · cases List.mem_singleton.1 ht
      rfl

/-- The stored parts are numbered 1, 2, 3 and so on. -/
theorem numbers (h : Progress address uploadId path listed turns) :
    listed.map (·.number) = List.range' 1 listed.length := by
  induction h with
  | begin => rfl
  | ask _ _ _ ih => exact ih
  | part body tag _ ih =>
    rw [List.map_append, ih, List.length_append, List.length_singleton, ← List.range'_append_1]
    simp [Nat.add_comm]

/-- Parts were sent, and in order. -/
theorem ordered (h : Progress address uploadId path listed turns) :
    Ordered address uploadId (requests turns) listed.length := by
  induction h with
  | begin => exact .nil
  | ask _ silent _ ih =>
    rw [requests_append, requests_cons_of_silent silent, requests_nil, List.append_nil]
    exact ih
  | part body tag _ ih =>
    rw [requests_append, List.length_append]
    exact ih.snoc body

/-- Every stored part was sent and got its tag. -/
theorem tagged (h : Progress address uploadId path listed turns) :
    ∀ p ∈ listed, Tagged address uploadId turns p := by
  induction h with
  | begin => exact fun p hp => absurd hp List.not_mem_nil
  | ask _ _ _ ih => exact fun p hp => (ih p hp).append
  | part body tag _ ih =>
    intro p hp
    rcases List.mem_append.1 hp with hp | hp
    · exact (ih p hp).append
    · cases List.mem_singleton.1 hp
      exact ⟨body, List.mem_append_right _ List.mem_cons_self⟩

/-- Every number up to that of the last stored part has a tag. -/
theorem tagged_of_le (h : Progress address uploadId path listed turns) {m : Nat} (hpos : 1 ≤ m)
    (hm : m ≤ listed.length) : ∃ tag, Tagged address uploadId turns ⟨m, tag⟩ := by
  have hmem : m ∈ listed.map (·.number) := by
    rw [h.numbers, List.mem_range'_1]
    omega
  obtain ⟨⟨_, tag⟩, hp, rfl⟩ := List.mem_map.1 hmem
  exact ⟨tag, h.tagged _ hp⟩

/-- **A part is sent once those with smaller numbers have tags.**  The induction is on the turns,
the last one first. -/
theorem inTurn (h : Progress address uploadId path listed turns) {before after : List Turn}
    {number : Nat} {length : Int} {body : ByteArray} {answer : Except ServiceError Reply}
    (split : turns
      = before ++ .send (.uploadPart address uploadId number length body) answer :: after)
    {m : Nat} (hpos : 1 ≤ m) (hm : m < number) :
    ∃ tag, Tagged address uploadId before ⟨m, tag⟩ := by
  induction h generalizing after with
  | begin => simp at split
  | ask sofar silent _ ih =>
    rcases split_append split.symm with ⟨mid, hturns, -⟩ | ⟨mid, -, hlast⟩
    · exact ih hturns
    · -- The last turn sends nothing.
      rcases mid with _ | ⟨y, mid⟩
      · cases hlast
        cases silent
      · simp at hlast
  | part body tag sofar ih =>
    rcases split_append split.symm with ⟨mid, hturns, -⟩ | ⟨mid, hbefore, hlast⟩
    · exact ih hturns
    · rcases mid with _ | ⟨y, mid⟩
      · -- The part is the last one, and all before it are stored.
        obtain ⟨hsent, -⟩ := List.cons.inj hlast
        cases hsent
        rw [hbefore, List.append_nil]
        exact sofar.tagged_of_le hpos (Nat.le_of_lt_succ hm)
      · simp at hlast

end Progress

/-- The request that failed, if a request did, was the next one. -/
theorem Stops.ordered {f : Failure} (h : Stops address uploadId path listed t f)
    (sofar : Progress address uploadId path listed turns) :
    ∃ count ≤ listed.length + 1, Ordered address uploadId (requests (turns ++ [t])) count := by
  rw [requests_append]
  rcases h.next with silent | ⟨body, answer, rfl⟩
  · rw [requests_cons_of_silent silent, requests_nil, List.append_nil]
    exact ⟨_, Nat.le_succ _, sofar.ordered⟩
  · exact ⟨_, Nat.le_refl _, sofar.ordered.snoc body⟩

/-- The next part is in its turn. -/
theorem Stops.inTurn {f : Failure} {number : Nat} {length : Int} {body : ByteArray}
    {answer : Except ServiceError Reply}
    (h : Stops address uploadId path listed
      (.send (.uploadPart address uploadId number length body) answer) f)
    (sofar : Progress address uploadId path listed turns) {m : Nat} (hpos : 1 ≤ m)
    (hm : m < number) : ∃ tag, Tagged address uploadId turns ⟨m, tag⟩ := by
  rcases h.next with silent | ⟨_, _, given⟩
  · cases silent
  · cases given
    exact sofar.tagged_of_le hpos (Nat.le_of_lt_succ hm)

/-! ## §3. The parts. -/

variable {id : NodeId} {size number : Nat}

theorem turns_of_readPart {result : Except Failure ByteArray} (hnumber : 0 < number)
    (h : Goes (readPart path id size number) turns result) :
    ∃ t, turns = [t] ∧ t.request? = none ∧
      ((∃ body, t.failure? path = none ∧ result = .ok body) ∨
        ∃ f, t.failure? path = some f ∧ result = .error f) := by
  obtain ⟨answer, rest, rfl, went⟩ := goes_readAt_bind.1 h
  rw [goes_orFail_bind] at went
  rcases answer with e | body
  · obtain ⟨rfl, rfl⟩ := went
    refine ⟨_, rfl, rfl, .inr ⟨_, ?_, rfl⟩⟩
    rw [Turn.failure?, partStart_div hnumber]
  · dsimp only at went
    split at went
    · next short =>
      obtain ⟨rfl, rfl⟩ := goes_throw.1 went
      refine ⟨_, rfl, rfl, .inr ⟨_, ?_, rfl⟩⟩
      rw [Turn.failure?, if_pos short, partStart_div hnumber]
    · next long =>
      obtain ⟨rfl, rfl⟩ := goes_pure.1 went
      exact ⟨_, rfl, rfl, .inl ⟨body, if_neg long, rfl⟩⟩

theorem turns_of_sendPart (path : Path) {body : ByteArray} {result : Except Failure StoredPart}
    (h : Goes (sendPart address uploadId number body) turns result) :
    ∃ answer, turns = [.send (.part address uploadId number body) answer] ∧
      ((∃ tag, answer = .ok (some tag) ∧ result = .ok ⟨number, tag⟩) ∨
        ∃ f, (Turn.send (.part address uploadId number body) answer).failure? path = some f ∧
          result = .error f) := by
  obtain ⟨answer, rest, rfl, went⟩ := goes_send_bind.1 h
  rcases answer with e | (_ | tag)
  · obtain ⟨rfl, rfl⟩ := goes_throw.1 went
    exact ⟨_, rfl, .inr ⟨_, rfl, rfl⟩⟩
  · obtain ⟨rfl, rfl⟩ := goes_throw.1 went
    exact ⟨_, rfl, .inr ⟨_, rfl, rfl⟩⟩
  · obtain ⟨rfl, rfl⟩ := goes_pure.1 went
    exact ⟨_, rfl, .inl ⟨tag, rfl, rfl⟩⟩

/-- **The parts go on from any progress**, until `left` more are stored or something fails. -/
theorem progress_sendPartsFrom {before : List Turn} {left : Nat}
    {result : Except Failure (List StoredPart)}
    (sofar : Progress address uploadId path listed before)
    (h : Goes (sendPartsFrom address uploadId path id size (listed.length + 1) left) turns result) :
    (∃ more, result = .ok more ∧ more.length = left ∧
        Progress address uploadId path (listed ++ more) (before ++ turns)) ∨
      ∃ more clean t f, turns = clean ++ [t] ∧ result = .error f ∧ more.length < left ∧
        Progress address uploadId path (listed ++ more) (before ++ clean) ∧
        Stops address uploadId path (listed ++ more) t f := by
  induction left generalizing listed before turns result with
  | zero =>
    obtain ⟨rfl, rfl⟩ := goes_pure.1 h
    exact .inl ⟨[], rfl, rfl, by simpa using sofar⟩
  | succ left ih =>
    unfold sendPartsFrom at h
    -- The next part is read, then sent; each may stop the upload.
    rcases goes_bind.1 h with ⟨e, hread, rfl⟩ | ⟨body, reading, rest, rfl, hread, went⟩
    · obtain ⟨t, rfl, silent, ⟨_, -, given⟩ | ⟨f, failed, given⟩⟩ :=
        turns_of_readPart (Nat.succ_pos _) hread
      · cases given
      · cases given
        exact .inr ⟨[], [], t, e, rfl, rfl, Nat.succ_pos _, by simpa using sofar,
          ⟨failed, .inl silent⟩⟩
    obtain ⟨t, rfl, silent, ⟨_, fine, -⟩ | ⟨f, -, given⟩⟩ :=
      turns_of_readPart (Nat.succ_pos _) hread
    swap
    · cases given
    have read := sofar.ask silent fine
    rcases goes_bind.1 went with ⟨e, hsend, rfl⟩ | ⟨stored, sending, rest, rfl, hsend, went⟩
    · obtain ⟨answer, rfl, ⟨_, -, given⟩ | ⟨f, failed, given⟩⟩ := turns_of_sendPart path hsend
      · cases given
      · cases given
        exact .inr ⟨[], [t], _, e, rfl, rfl, Nat.succ_pos _, by simpa using read,
          ⟨failed, .inr ⟨body, answer, by simp⟩⟩⟩
    obtain ⟨answer, rfl, ⟨tag, rfl, given⟩ | ⟨f, -, given⟩⟩ := turns_of_sendPart path hsend
    swap
    · cases given
    cases given
    -- One part more is stored, and the others follow.
    have sent := read.part body tag
    have hlength : (listed ++ [StoredPart.mk (listed.length + 1) tag]).length
        = listed.length + 1 := by simp
    rcases goes_bind.1 went with ⟨e, hrest, rfl⟩ | ⟨others, turns, last, rfl, hrest, hpure⟩
    · rw [← hlength] at hrest
      rcases ih sent hrest with ⟨_, given, -⟩ | ⟨more, clean, u, f, rfl, given, short, went, stops⟩
      · cases given
      · cases given
        refine .inr ⟨⟨listed.length + 1, tag⟩ :: more,
          t :: .send (.part address uploadId (listed.length + 1) body) (.ok (some tag)) :: clean,
          u, e, rfl, rfl, Nat.succ_lt_succ short, ?_, ?_⟩
        · simpa using went
        · simpa using stops
    · obtain ⟨rfl, rfl⟩ := goes_pure.1 hpure
      rw [← hlength] at hrest
      rcases ih sent hrest with ⟨more, given, all, went⟩ | ⟨_, _, _, _, _, given, _⟩
      · cases given
        exact .inl ⟨_, rfl, congrArg (· + 1) all, by simpa using went⟩
      · cases given

/-! ## §4. An upload that was opened. -/

/-- **The two ways of an upload that was opened.**  All parts are stored, and it is completed; or
something fails before, and it is aborted. -/
inductive LargeWay (address : Address) (uploadId : String) (path : Path) (size : Nat) :
    List Turn → Except Failure Unit → Prop
  | completes {listed : List StoredPart} {clean : List Turn} (answer : Except ServiceError Reply)
      (result : Except Failure Unit) :
      Progress address uploadId path listed clean → listed.length = partCount size →
      LargeWay address uploadId path size
        (clean ++ [.send (.completeMultipart address uploadId listed) answer]) result
  | aborts {listed : List StoredPart} {clean quiet : List Turn} {t : Turn} {f : Failure}
      (answer : Except ServiceError Reply) :
      Progress address uploadId path listed clean → listed.length < partCount size →
      Stops address uploadId path listed t f → Quiet path quiet →
      LargeWay address uploadId path size
        (clean ++ t :: .send (.abortMultipart address uploadId) answer :: quiet)
        (.error (f.within .partsAborted))

/-- The parts of a file, from its opening on. -/
theorem progress_sendParts {result : Except Failure (List StoredPart)}
    (h : Goes (sendParts address uploadId path size) turns result) :
    (∃ listed, result = .ok listed ∧ listed.length = partCount size ∧
        Progress address uploadId path listed turns) ∨
      ∃ listed clean t f, turns = clean ++ [t] ∧ result = .error f ∧
        listed.length < partCount size ∧ Progress address uploadId path listed clean ∧
        Stops address uploadId path listed t f := by
  obtain ⟨answer, rest, rfl, went⟩ := goes_openFile_bind.1 h
  rw [goes_orFail_bind] at went
  rcases answer with e | id
  · obtain ⟨rfl, rfl⟩ := went
    exact .inr ⟨[], [], _, _, rfl, rfl, Nat.le_max_left 1 _, .begin, ⟨rfl, .inl rfl⟩⟩
  · have opened : Progress address uploadId path [] ([] ++ [.openFile path (.ok id)]) :=
      .ask .begin rfl rfl
    rcases progress_sendPartsFrom opened went with
      ⟨more, rfl, all, progress⟩ | ⟨more, clean, t, f, rfl, rfl, short, progress, stops⟩
    · exact .inl ⟨more, rfl, all, progress⟩
    · exact .inr ⟨more, .openFile path (.ok id) :: clean, t, f, rfl, rfl, short, progress, stops⟩

/-- Once an upload was given up there is nothing left but a line of the log. -/
theorem quiet_of_giveUp (path : Path) {f : Failure} {parts : Except Failure (List StoredPart)}
    (h : Goes (do abort address uploadId; throw f) turns parts) :
    parts = .error f ∧ ∃ answer quiet,
      turns = .send (.abortMultipart address uploadId) answer :: quiet ∧ Quiet path quiet := by
  refine ⟨(goes_giveUp h).1, ?_⟩
  rcases goes_bind.1 h with ⟨e, habort, -⟩ | ⟨_, first, second, rfl, habort, hthrow⟩
  · cases (goes_abort habort).1
  obtain ⟨rfl, -⟩ := goes_throw.1 hthrow
  rw [List.append_nil]
  obtain ⟨answer, rest, rfl, went⟩ := goes_send_bind.1 habort
  refine ⟨answer, rest, rfl, fun t ht => ?_⟩
  rcases answer with e | reply
  · obtain ⟨rfl, -⟩ := goes_log.1 went
    cases List.mem_singleton.1 ht
    exact ⟨rfl, rfl⟩
  · obtain ⟨rfl, -⟩ := goes_pure.1 went
    exact absurd ht List.not_mem_nil

/-- **An upload in parts is opened or fails at once**, and goes one of two ways if it was opened. -/
theorem large_cases {result : Except Failure Unit}
    (h : Goes (large address path size) turns result) :
    ∃ answer rest, turns = .send (.create address) answer :: rest ∧
      ((∀ uploadId, answer ≠ .ok (some uploadId)) → rest = [] ∧ ∃ f, result = .error f) ∧
      ∀ uploadId, answer = .ok (some uploadId) →
        LargeWay address uploadId path size rest result := by
  rcases goes_bind.1 h with ⟨e, hcreate, rfl⟩ | ⟨uploadId, first, rest, rfl, hcreate, went⟩
  · obtain ⟨answer, rfl, hid⟩ := goes_create hcreate
    refine ⟨answer, [], rfl, fun _ => ⟨rfl, e, rfl⟩, fun uploadId hanswer => ?_⟩
    cases (hid uploadId).2 hanswer
  obtain ⟨answer, rfl, hid⟩ := goes_create hcreate
  obtain rfl := (hid uploadId).1 rfl
  refine ⟨_, rest, rfl, fun never => absurd rfl (never uploadId), fun opened same => ?_⟩
  cases same
  rcases goes_bind.1 went with ⟨e, hparts, rfl⟩ | ⟨parts, sending, last, rfl, hparts, hlast⟩
  · rcases goes_tryCatch.1 hparts with ⟨_, -, given⟩ | ⟨f, sent, last, rfl, hsent, hlast⟩
    · cases given
    · -- The parts failed: the failure is passed on once the upload was given up.
      rcases progress_sendParts hsent with
        ⟨_, given, -⟩ | ⟨listed, clean, t, f, rfl, given, short, progress, stops⟩
      · cases given
      cases given
      obtain ⟨given, answer, last, rfl, quiet⟩ := quiet_of_giveUp path hlast
      cases given
      rw [List.append_assoc]
      exact .aborts answer progress short stops quiet
  · rcases goes_tryCatch.1 hparts with ⟨_, hsent, given⟩ | ⟨f, sent, handled, rfl, -, hhandled⟩
    · cases given
      rcases progress_sendParts hsent with
        ⟨listed, given, all, progress⟩ | ⟨_, _, _, _, _, given, _⟩
      · cases given
        obtain ⟨answer, rfl, -⟩ := goes_complete hlast
        exact .completes answer result progress all
      · cases given
    · cases (goes_giveUp hhandled).1

/-! ## §5. The law. -/

/-- **The discipline of an upload in parts**, from the answer on that opened it. -/
structure Disciplined (address : Address) (uploadId : String) (path : Path) (size : Nat)
    (turns : List Turn) (result : Except Failure Unit) : Prop where
  /-- All requests are for this address and this upload. -/
  own : ∀ r ∈ requests turns, r.address = address ∧ r.uploadId? = some uploadId
  /-- The parts are sent in order, each once, and one request comes after them: it completes the
  upload if all were sent, or gives it up. -/
  sent : ∃ parts last count, requests turns = parts ++ [last] ∧
    Ordered address uploadId parts count ∧ count ≤ partCount size ∧
    (last.kind = .completeMultipart ∧ count = partCount size ∨ last.kind = .abortMultipart)
  /-- A part is sent once those with smaller numbers have tags. -/
  inTurn : ∀ before number length body answer after,
    turns = before ++ .send (.uploadPart address uploadId number length body) answer :: after →
    ∀ m, 1 ≤ m → m < number → ∃ tag, Tagged address uploadId before ⟨m, tag⟩
  /-- The upload is completed once all parts have tags, by exactly these, and nothing follows. -/
  completes : ∀ before parts answer after,
    turns = before ++ .send (.completeMultipart address uploadId parts) answer :: after →
    parts.map (·.number) = List.range' 1 (partCount size) ∧
      (∀ p ∈ parts, Tagged address uploadId before p) ∧ after = []
  /-- After a failure of the parts the upload is given up, and never completed; the failure is
  passed on. -/
  fails : ∀ before t after f, turns = before ++ t :: after → t.failure? path = some f →
    requests after = [.abortMultipart address uploadId] ∧
      (∀ r ∈ requests turns, r.kind ≠ .completeMultipart) ∧
      ∃ told, result = .error told ∧
        told.message = "Part upload failed, multipart upload aborted" ∧
        told.causes = f.problem :: f.causes
  /-- The upload is given up after a failure only, and nothing is sent after that. -/
  aborts : ∀ before answer after,
    turns = before ++ .send (.abortMultipart address uploadId) answer :: after →
    (∃ t ∈ before, ∃ f, t.failure? path = some f) ∧ requests after = []

/-- Requests that send parts of an upload are about it. -/
theorem Ordered.own {sent : List Request} {count : Nat}
    (h : Ordered address uploadId sent count) {r : Request} (hr : r ∈ sent) :
    r.address = address ∧ r.uploadId? = some uploadId ∧ r.kind = .uploadPart := by
  obtain ⟨number, body, rfl⟩ := h.1 r hr
  exact ⟨rfl, rfl, rfl⟩

/-- Among turns in which nothing failed, only parts are sent. -/
theorem Progress.kind_eq {before after : List Turn} {r : Request}
    {answer : Except ServiceError Reply} (h : Progress address uploadId path listed turns)
    (split : turns = before ++ .send r answer :: after) : r.kind = .uploadPart := by
  have hmem : r ∈ requests turns := by
    rw [split, requests_append, requests_cons_send]
    exact List.mem_append_right _ List.mem_cons_self
  exact (h.ordered.own hmem).2.2

/-- An upload whose parts are all stored. -/
theorem disciplined_of_completes {clean : List Turn} {answer : Except ServiceError Reply}
    {result : Except Failure Unit} (progress : Progress address uploadId path listed clean)
    (all : listed.length = partCount size) :
    Disciplined address uploadId path size
      (clean ++ [.send (.completeMultipart address uploadId listed) answer]) result := by
  have hrequests : requests (clean ++ [.send (.completeMultipart address uploadId listed) answer])
      = requests clean ++ [.completeMultipart address uploadId listed] := requests_append
  -- A turn is one of those before the last, or the last one.
  have place {before after : List Turn} {t : Turn}
      (split : clean ++ [.send (.completeMultipart address uploadId listed) answer]
        = before ++ t :: after) :
      (∃ mid, clean = before ++ t :: mid) ∨
        before = clean ∧ t = .send (.completeMultipart address uploadId listed) answer ∧
          after = [] := by
    rcases split_append split.symm with ⟨mid, hclean, -⟩ | ⟨_ | ⟨y, mid⟩, hbefore, hlast⟩
    · exact .inl ⟨mid, hclean⟩
    · cases hlast
      exact .inr ⟨by simpa using hbefore, rfl, rfl⟩
    · simp at hlast
  refine ⟨?own, ?sent, ?inTurn, ?completes, ?fails, ?aborts⟩
  case own =>
    intro r hr
    rw [hrequests] at hr
    rcases List.mem_append.1 hr with hr | hr
    · exact ⟨(progress.ordered.own hr).1, (progress.ordered.own hr).2.1⟩
    · cases List.mem_singleton.1 hr
      exact ⟨rfl, rfl⟩
  case sent =>
    exact ⟨_, _, _, hrequests, progress.ordered, all.le, .inl ⟨rfl, all⟩⟩
  case inTurn =>
    intro before number length body answer after split m hpos hm
    rcases place split with ⟨mid, hclean⟩ | ⟨-, given, -⟩
    · exact progress.inTurn hclean hpos hm
    · cases given
  case completes =>
    intro before parts answer after split
    rcases place split with ⟨mid, hclean⟩ | ⟨rfl, given, rfl⟩
    · cases progress.kind_eq hclean
    · cases given
      exact ⟨all ▸ progress.numbers, progress.tagged, rfl⟩
  case fails =>
    intro before t after f split failed
    rcases place split with ⟨mid, hclean⟩ | ⟨-, rfl, -⟩
    · rw [progress.clean t (hclean ▸ List.mem_append_right _ List.mem_cons_self)] at failed
      cases failed
    · cases failed
  case aborts =>
    intro before answer after split
    rcases place split with ⟨mid, hclean⟩ | ⟨-, given, -⟩
    · cases progress.kind_eq hclean
    · cases given

/-- An upload whose parts failed. -/
theorem disciplined_of_aborts {clean quiet : List Turn} {t : Turn} {f : Failure}
    {answer : Except ServiceError Reply} (progress : Progress address uploadId path listed clean)
    (short : listed.length < partCount size) (stops : Stops address uploadId path listed t f)
    (hquiet : Quiet path quiet) :
    Disciplined address uploadId path size
      (clean ++ t :: .send (.abortMultipart address uploadId) answer :: quiet)
      (.error (f.within .partsAborted)) := by
  obtain ⟨count, hcount, ordered⟩ := stops.ordered progress
  have silent : requests quiet = [] :=
    List.filterMap_eq_nil_iff.2 fun u hu => (hquiet u hu).1
  have hrequests :
      requests (clean ++ t :: .send (.abortMultipart address uploadId) answer :: quiet)
        = requests (clean ++ [t]) ++ [.abortMultipart address uploadId] := by
    have later : requests (.send (.abortMultipart address uploadId) answer :: quiet)
        = [.abortMultipart address uploadId] := by rw [requests_cons_send, silent]
    rw [← later, ← requests_append, List.append_assoc]
    rfl
  -- A turn is one in which nothing failed, the one that failed, or one of those after it.
  have place {before after : List Turn} {u : Turn}
      (split : clean ++ t :: .send (.abortMultipart address uploadId) answer :: quiet
        = before ++ u :: after) :
      (∃ mid, clean = before ++ u :: mid) ∨
        (before = clean ∧ u = t ∧
          after = .send (.abortMultipart address uploadId) answer :: quiet) ∨
        (before = clean ++ [t] ∧ u = .send (.abortMultipart address uploadId) answer ∧
          after = quiet) ∨
        u ∈ quiet := by
    rcases split_append split.symm with
      ⟨mid, hclean, -⟩ | ⟨_ | ⟨y, _ | ⟨z, mid⟩⟩, hbefore, hlast⟩
    · exact .inl ⟨mid, hclean⟩
    · cases hlast
      exact .inr (.inl ⟨by simpa using hbefore, rfl, rfl⟩)
    · cases hlast
      exact .inr (.inr (.inl ⟨hbefore, rfl, rfl⟩))
    · cases hlast
      exact .inr (.inr (.inr (List.mem_append_right _ List.mem_cons_self)))
  refine ⟨?own, ?sent, ?inTurn, ?completes, ?fails, ?aborts⟩
  case own =>
    intro r hr
    rw [hrequests] at hr
    rcases List.mem_append.1 hr with hr | hr
    · exact ⟨(ordered.own hr).1, (ordered.own hr).2.1⟩
    · cases List.mem_singleton.1 hr
      exact ⟨rfl, rfl⟩
  case sent =>
    exact ⟨_, _, count, hrequests, ordered, by omega, .inr rfl⟩
  case inTurn =>
    intro before number length body answer after split m hpos hm
    rcases place split with ⟨mid, hclean⟩ | ⟨rfl, rfl, -⟩ | ⟨-, given, -⟩ | hmem
    · exact progress.inTurn hclean hpos hm
    · exact stops.inTurn progress hpos hm
    · cases given
    · cases (hquiet _ hmem).1
  case completes =>
    intro before parts answer after split
    rcases place split with ⟨mid, hclean⟩ | ⟨-, rfl, -⟩ | ⟨-, given, -⟩ | hmem
    · cases progress.kind_eq hclean
    · cases stops.failure
    · cases given
    · cases (hquiet _ hmem).1
  case fails =>
    intro before u after g split failed
    rcases place split with ⟨mid, hclean⟩ | ⟨-, rfl, rfl⟩ | ⟨-, rfl, -⟩ | hmem
    · rw [progress.clean u (hclean ▸ List.mem_append_right _ List.mem_cons_self)] at failed
      cases failed
    · obtain rfl : f = g := Option.some.inj (stops.failure.symm.trans failed)
      refine ⟨by rw [requests_cons_send, silent], fun r hr => ?_, _, rfl, rfl, rfl⟩
      rw [hrequests] at hr
      rcases List.mem_append.1 hr with hr | hr
      · rw [(ordered.own hr).2.2]
        decide
      · cases List.mem_singleton.1 hr
        exact RequestKind.noConfusion
    · cases failed
    · rw [(hquiet u hmem).2] at failed
      cases failed
  case aborts =>
    intro before answer after split
    rcases place split with ⟨mid, hclean⟩ | ⟨-, rfl, -⟩ | ⟨rfl, -, rfl⟩ | hmem
    · cases progress.kind_eq hclean
    · cases stops.failure
    · exact ⟨⟨t, List.mem_append_right _ List.mem_cons_self, f, stops.failure⟩, silent⟩
    · cases (hquiet _ hmem).1

/-- **The requests of a large file keep the discipline**, whatever the disk and the service
answer: nothing follows an upload that was not opened, and what follows one that was is
`Disciplined`. -/
theorem multipart_discipline {result : Except Failure Unit}
    (h : Goes (Upload.file address path) turns result)
    (asked : turns.head? = some (.size path (.ok size)))
    (above : Defaults.largeFileThreshold < size) :
    ∃ answer rest, turns = .size path (.ok size) :: .send (.create address) answer :: rest ∧
      ((∀ uploadId, answer ≠ .ok (some uploadId)) → rest = [] ∧ ∃ f, result = .error f) ∧
      ∀ uploadId, answer = .ok (some uploadId) →
        Disciplined address uploadId path size rest result := by
  obtain ⟨answer, rest, rfl, went⟩ := goes_sizeOf_bind.1 h
  cases Option.some.inj asked
  rw [goes_orFail_bind] at went
  dsimp only at went
  rw [if_pos above] at went
  obtain ⟨answer, rest, rfl, unopened, opened⟩ := large_cases went
  refine ⟨answer, rest, rfl, unopened, fun uploadId hanswer => ?_⟩
  cases opened uploadId hanswer with
  | completes answer _ progress all => exact disciplined_of_completes progress all
  | aborts answer progress short stops quiet =>
    exact disciplined_of_aborts progress short stops quiet

/-- The turns of an upload whose first part is refused, and that cannot be given up either. -/
def turnsWithRefusals : List Turn :=
  [.size (Path.ofString "venmo_send.zkey") (.ok sampleSize),
    .send (.create sampleAddress) (.ok (some "upload-1")),
    .openFile (Path.ofString "venmo_send.zkey") (.ok 0),
    .readAt 0 (partStart 1) (partLength sampleSize 1) (.ok (zeros (partLength sampleSize 1))),
    .send (.part sampleAddress "upload-1" 1 (zeros (partLength sampleSize 1)))
      (.error (.refused 503 "SlowDown")),
    .send (.abortMultipart sampleAddress "upload-1") (.error (.connection "gone")),
    .log (.abortFailed sampleAddress.key "gone")]

/-- A part and the request to give the upload up are both refused: the failure of the part is
told, and the discipline is kept. -/
theorem twice_refused_disciplined :
    ∃ f, Goes (Upload.file sampleAddress (Path.ofString "venmo_send.zkey")) turnsWithRefusals
        (.error f) ∧
      turnsWithRefusals.head? = some (.size (Path.ofString "venmo_send.zkey") (.ok sampleSize)) ∧
      Defaults.largeFileThreshold < sampleSize ∧
      Disciplined sampleAddress "upload-1" (Path.ofString "venmo_send.zkey") sampleSize
        (turnsWithRefusals.drop 2) (.error f) := by
  have parts : Goes
      (sendParts sampleAddress "upload-1" (Path.ofString "venmo_send.zkey") sampleSize)
      [.openFile (Path.ofString "venmo_send.zkey") (.ok 0),
        .readAt 0 (partStart 1) (partLength sampleSize 1) (.ok (zeros (partLength sampleSize 1))),
        .send (.part sampleAddress "upload-1" 1 (zeros (partLength sampleSize 1)))
          (.error (.refused 503 "SlowDown"))]
      (.error (.ofProblem (.sendPart 1 (ServiceError.refused 503 "SlowDown").text))) := by
    refine goes_openFile_bind.2 ⟨_, _, rfl, goes_orFail_bind.2 ?_⟩
    refine goes_bind.2 (.inr ⟨zeros (partLength sampleSize 1), [_], _, rfl, ?_, ?_⟩)
    · refine goes_readAt_bind.2 ⟨_, [], rfl, goes_orFail_bind.2 ?_⟩
      dsimp only
      rw [size_zeros, if_neg (Nat.lt_irrefl _)]
      exact goes_pure.2 ⟨rfl, rfl⟩
    · exact goes_bind.2 (.inl ⟨_, goes_send_bind.2 ⟨_, [], rfl, goes_throw.2 ⟨rfl, rfl⟩⟩, rfl⟩)
  have goes : Goes (Upload.file sampleAddress (Path.ofString "venmo_send.zkey")) turnsWithRefusals
      (.error ((Failure.ofProblem (.sendPart 1 (ServiceError.refused 503 "SlowDown").text)).within
        .partsAborted)) := by
    refine goes_sizeOf_bind.2 ⟨.ok sampleSize, _, rfl, goes_orFail_bind.2 ?_⟩
    dsimp only
    rw [if_pos (by decide)]
    refine goes_bind.2 (.inr ⟨"upload-1", [_], _, rfl, .send _ (.done _), ?_⟩)
    refine goes_bind.2 (.inl ⟨_, goes_tryCatch.2 (.inr ⟨_, _, _, rfl, parts, ?_⟩), rfl⟩)
    exact .send _ (.log (.done _))
  have above : Defaults.largeFileThreshold < sampleSize := by decide
  obtain ⟨_, _, given, -, disciplined⟩ := multipart_discipline goes rfl above
  cases given
  exact ⟨_, goes, rfl, above, disciplined _ rfl⟩

end Upload
end ArtifactCourier.Store
