/-
  ArtifactCourier.Proofs.Store.Concurrent
  ──────────────────────────────────────
  **Uploads beside each other never mix.**

  Any number of uploads are under way in front of one store.  They take turns in any order, and
  every request is refused or accepted as the store likes; an upload in parts that it opens gets
  an id that no other one has at that time.

  A run of the whole is followed by the shares of the uploads (`Share`).  They are tied to the
  store: each open upload in parts is in the store as its share says, and no two shares have the
  same id.  So a request of one upload changes neither the share of another nor an object,
  unless it installs the file of its own upload as a whole.

    • `Flight.Step`, `Flight.Run` — one turn of one upload, and any number of turns,
    • `Tied`, `tied_step`, `tied_run` — shares and the store belong together, from turn to turn,
    • `lastInstaller` — the upload that installed its file last at an address,
    • `concurrent_uploads` — the law.
-/
import ArtifactCourier.Proofs.Bytes
import ArtifactCourier.Proofs.Store.Dialogue
import ArtifactCourier.Proofs.Store.Share

namespace ArtifactCourier.Store

open FileSystem

variable {α ι : Type}

/-! ## §1. Turns of a conversation. -/

/-- A conversation takes a turn, and another is left of it. -/
inductive Exchange.Takes : Exchange α → Turn → Exchange α → Prop
  | size {file : Path} {next : Except FileError Nat → Exchange α} (answer : Except FileError Nat) :
      Takes (.size file next) (.size file answer) (next answer)
  | openFile {file : Path} {next : Except FileError NodeId → Exchange α}
      (answer : Except FileError NodeId) :
      Takes (.openFile file next) (.openFile file answer) (next answer)
  | readAll {id : NodeId} {next : Except FileError ByteArray → Exchange α}
      (answer : Except FileError ByteArray) :
      Takes (.readAll id next) (.readAll id answer) (next answer)
  | readAt {id : NodeId} {offset length : Nat} {next : Except FileError ByteArray → Exchange α}
      (answer : Except FileError ByteArray) :
      Takes (.readAt id offset length next) (.readAt id offset length answer) (next answer)
  | send {r : Request} {next : Except ServiceError Reply → Exchange α}
      (answer : Except ServiceError Reply) : Takes (.send r next) (.send r answer) (next answer)
  | log {line : Log.Line} {next : Exchange α} : Takes (.log line next) (.log line) next

namespace Turn

/-- What the disk has answered is what there is on it. -/
def TrueOf (disk : FileSystem) : Turn → Prop
  | size file answer => answer = (disk.stat file).map Node.size
  | openFile file answer => answer = disk.openRead file
  | readAll id answer => answer = disk.readAll id
  | readAt id offset length answer => answer = disk.readAt id offset length
  | send _ _ => True
  | log _ => True

/-- The store after a turn.  A request that is refused has no effect. -/
def effect (d : Depot Unit) : Turn → Depot Unit
  | send r (.ok reply) => d.accept r reply
  | _ => d

/-- An upload in parts that is opened gets an id that no other one has. -/
def Fresh (d : Depot Unit) : Turn → Prop
  | send (.createMultipart ..) (.ok (some id)) => d.pending id = none
  | _ => True

/-- An object is put in its place: in one request, or by completing an upload in parts. -/
def installs : Turn → Bool
  | send (.putObject ..) (.ok _) => true
  | send (.completeMultipart ..) (.ok _) => true
  | _ => false

end Turn

/-! ## §2. Uploads in front of one store. -/

/-- Uploads that are under way: the store, and what is left of each conversation. -/
structure Flight (ι : Type) where
  store : Depot Unit
  left : ι → Exchange (Except Failure Unit)

namespace Flight

/-- The beginning of some uploads. -/
def start (calls : ι → Call) (store : Depot Unit) : Flight ι :=
  ⟨store, fun i => (Upload.file (calls i).address (calls i).file).run⟩

variable [DecidableEq ι]

/-- **One turn of one upload**, whichever it is. -/
inductive Step (calls : ι → Call) (w : Flight ι) : ι → Turn → Flight ι → Prop
  | turn {i : ι} {t : Turn} {next : Exchange (Except Failure Unit)} :
      (w.left i).Takes t next → t.TrueOf (calls i).disk → t.Fresh w.store →
      Step calls w i t ⟨t.effect w.store, Function.update w.left i next⟩

/-- **Any number of turns**, with their history. -/
inductive Run (calls : ι → Call) (w : Flight ι) : List (ι × Turn) → Flight ι → Prop
  | nil : Run calls w [] w
  | snoc {history : List (ι × Turn)} {w' w'' : Flight ι} {i : ι} {t : Turn} :
      Run calls w history w' → Step calls w' i t w'' → Run calls w (history ++ [(i, t)]) w''

end Flight

/-! ## §3. One turn, and the share of the upload that takes it. -/

/-- The share after a turn. -/
def Share.afterTurn (v : Share) : Turn → Share
  | .send r (.ok reply) => v.after r reply
  | _ => v

namespace Call

variable {c : Call} {v : Share} {t : Turn} {d : Depot Unit}

/-- What is left of a conversation behaves as the whole does. -/
theorem Plays.step {x y : Exchange α} {Q : α → Share → Prop} (h : c.Plays x v Q)
    (takes : x.Takes t y) (told : t.TrueOf c.disk) :
    c.Plays y (v.afterTurn t) Q ∧ ∀ r, t.request? = some r → c.MaySend v r := by
  cases takes with
  | send answer =>
    obtain ⟨may, refused, accepted⟩ := h
    refine ⟨?_, fun r hr => ?_⟩
    · rcases answer with e | reply
      · exact refused e
      · exact accepted reply
    · cases hr
      exact may
  | log => exact ⟨h, nofun⟩
  | _ =>
    -- The disk was asked.
    cases told
    exact ⟨h, nofun⟩

/-- What a turn changes in the store, told by the shares before and after it. -/
structure Changes (c : Call) (v v' : Share) (installs : Bool) (d d' : Depot Unit) : Prop where
  /-- The upload in parts that is open is in the store. -/
  own : ∀ id parts, v' = .opened id parts → d'.pending id = some (c.pending parts)
  /-- It is the one that was open before, or its id is new. -/
  fresh : ∀ id parts, v' = .opened id parts →
    (∃ parts', v = .opened id parts') ∨ d.pending id = none
  /-- All others are as they were. -/
  others : ∀ id, (∀ parts, v ≠ .opened id parts) → (∀ parts, v' ≠ .opened id parts) →
    d'.pending id = d.pending id
  /-- An object that is put in its place is the whole file. -/
  installed : installs = true → v ≠ .installed ∧ v' = .installed ∧
    ∃ content, c.disk.bytesAt c.file = .ok content ∧
      d'.objects = Depot.put d.objects c.address ⟨content, .artifact⟩
  /-- Else no object is touched. -/
  untouched : installs = false → (v' = .installed ↔ v = .installed) ∧ d'.objects = d.objects

/-- The open upload in parts of a share is in the store. -/
def Holds (c : Call) (v : Share) (d : Depot Unit) : Prop :=
  ∀ id parts, v = .opened id parts → d.pending id = some (c.pending parts)

/-- The upload is found with its address, too. -/
theorem Holds.pendingAt {id : String} {parts : Nat → Option (Reply × ByteArray)}
    (h : c.Holds (.opened id parts) d) : d.pendingAt c.address id = some (c.pending parts) := by
  unfold Depot.pendingAt
  rw [h id parts rfl]
  simp [Call.pending]

/-- A turn that neither the share nor the store takes note of. -/
theorem Changes.refl (held : c.Holds v d) : Changes c v v false d d where
  own := held
  fresh _ parts h := .inl ⟨parts, h⟩
  others _ _ _ := rfl
  installed := nofun
  untouched _ := ⟨Iff.rfl, rfl⟩

/-- **A request that is accepted**, one case for each that may be sent. -/
theorem changes_accept {r : Request} {reply : Reply} (held : c.Holds v d) (may : c.MaySend v r)
    (fresh : (Turn.send r (.ok reply)).Fresh d) :
    Changes c v (v.after r reply) (Turn.send r (.ok reply)).installs d (d.accept r reply) := by
  cases v with
  | idle =>
    cases r with
    | putObject _ _ _ body =>
      obtain ⟨rfl, rfl, whole⟩ := may
      exact ⟨by simp [Share.after], by simp [Share.after], fun _ _ _ => rfl,
        fun _ => ⟨by simp, rfl, _, whole, rfl⟩, by simp [Turn.installs]⟩
    | createMultipart _ _ =>
      obtain ⟨rfl, rfl⟩ := may
      rcases reply with _ | id
      · exact .refl held
      refine ⟨?_, ?_, ?_, by simp [Turn.installs], fun _ => ⟨by simp [Share.after], rfl⟩⟩
      · intro _ _ given
        cases given
        exact if_pos rfl
      · intro _ _ given
        cases given
        exact .inr fresh
      · intro other _ apart
        exact if_neg fun same => apart _ (by rw [same, Share.after])
    | _ => cases may
  | opened id parts =>
    cases r with
    | uploadPart _ uploadId number length body =>
      obtain ⟨rfl, rfl⟩ := may
      have effect : d.accept (.uploadPart c.address uploadId number length body) reply
          = d.setPending uploadId (some ((c.pending parts).addPart number reply body)) := by
        simp only [Depot.accept, held.pendingAt]
      rw [effect]
      refine ⟨?_, ?_, ?_, by simp [Turn.installs], fun _ => ⟨by simp [Share.after], rfl⟩⟩
      · intro _ _ given
        cases given
        exact if_pos rfl
      · intro _ _ given
        cases given
        exact .inl ⟨parts, rfl⟩
      · intro other apart _
        exact if_neg fun same => apart _ (by rw [same])
    | completeMultipart _ _ listed =>
      obtain ⟨rfl, rfl, whole⟩ := may
      simp only [Depot.accept, held.pendingAt]
      refine ⟨by simp [Share.after], by simp [Share.after], ?_,
        fun _ => ⟨by simp, rfl, _, whole, rfl⟩, by simp [Turn.installs]⟩
      intro other apart _
      exact if_neg fun same => apart _ (by rw [same])
    | abortMultipart _ _ =>
      obtain ⟨rfl, rfl⟩ := may
      simp only [Depot.accept, held.pendingAt]
      refine ⟨by simp [Share.after], by simp [Share.after], ?_, by simp [Turn.installs],
        fun _ => ⟨by simp [Share.after], rfl⟩⟩
      intro other apart _
      exact if_neg fun same => apart _ (by rw [same])
    | _ => cases may
  | installed => cases r <;> cases may

/-- **A turn** changes the share of the upload that takes it, and the store with it. -/
theorem changes_turn (held : c.Holds v d) (may : ∀ r, t.request? = some r → c.MaySend v r)
    (fresh : t.Fresh d) : Changes c v (v.afterTurn t) t.installs d (t.effect d) := by
  cases t with
  | send r answer =>
    rcases answer with e | reply
    · have silent : (Turn.send r (.error e)).installs = false := by cases r <;> rfl
      rw [silent]
      exact .refl held
    · exact changes_accept held (may r rfl) fresh
  | _ => exact .refl held

end Call

/-! ## §4. All shares together. -/

/-- **The shares of some uploads are tied to the store**: what is left of each upload goes on
from its share, each open upload in parts is in the store, and no two have the same id. -/
structure Tied (calls : ι → Call) (share : ι → Share) (w : Flight ι) : Prop where
  plays : ∀ i, (calls i).Plays (w.left i) (share i) Call.Settled
  holds : ∀ i, (calls i).Holds (share i) w.store
  apart : ∀ {i j id parts parts'}, share i = .opened id parts → share j = .opened id parts' → i = j

theorem tied_start (calls : ι → Call) (store : Depot Unit) :
    Tied calls (fun _ => .idle) (Flight.start calls store) where
  plays i := (calls i).behaves_file
  holds _ := nofun
  apart := nofun

variable [DecidableEq ι] {calls : ι → Call} {share : ι → Share} {w w' : Flight ι} {i : ι} {t : Turn}

/-- **One turn of one upload.**  The shares of the others stay as they are. -/
theorem tied_step (tied : Tied calls share w) (step : Flight.Step calls w i t w') :
    ∃ v, Tied calls (Function.update share i v) w' ∧
      (calls i).Changes (share i) v t.installs w.store w'.store := by
  obtain ⟨takes, told, fresh⟩ := step
  obtain ⟨plays, may⟩ := (tied.plays i).step takes told
  have changes := Call.changes_turn (tied.holds i) may fresh
  -- An id that another share has is neither that of this one nor new.
  have foreign : ∀ {j id parts}, j ≠ i → share j = .opened id parts →
      (∀ parts', share i ≠ .opened id parts') ∧
      ∀ parts', (share i).afterTurn t ≠ .opened id parts' := by
    intro j id parts hne hj
    have other : ∀ parts', share i ≠ .opened id parts' := fun parts' hi => hne (tied.apart hj hi)
    refine ⟨other, fun parts' hi => ?_⟩
    rcases changes.fresh id parts' hi with ⟨parts'', hopen⟩ | hnone
    · exact other _ hopen
    · rw [tied.holds j id parts hj] at hnone
      cases hnone
  refine ⟨(share i).afterTurn t, ⟨?plays, ?holds, ?apart⟩, changes⟩
  case plays =>
    intro j
    by_cases hj : j = i
    · subst hj
      simpa using plays
    · simpa [Function.update_of_ne hj] using tied.plays j
  case holds =>
    intro j id parts hshare
    by_cases hj : j = i
    · subst hj
      rw [Function.update_self] at hshare
      exact changes.own id parts hshare
    · rw [Function.update_of_ne hj] at hshare
      obtain ⟨before, after⟩ := foreign hj hshare
      exact (changes.others id before after).trans (tied.holds j id parts hshare)
  case apart =>
    intro j k id parts parts' hshare hshare'
    by_cases hj : j = i <;> by_cases hk : k = i
    · rw [hj, hk]
    · rw [hj, Function.update_self] at hshare
      rw [Function.update_of_ne hk] at hshare'
      exact absurd hshare ((foreign hk hshare').2 parts)
    · rw [Function.update_of_ne hj] at hshare
      rw [hk, Function.update_self] at hshare'
      exact absurd hshare' ((foreign hj hshare).2 parts')
    · rw [Function.update_of_ne hj] at hshare
      rw [Function.update_of_ne hk] at hshare'
      exact tied.apart hshare hshare'

/-! ## §5. Histories. -/

/-- The uploads that installed a file, in the order in which they did. -/
def installers (history : List (ι × Turn)) : List ι :=
  (history.filter fun x => x.2.installs).map (·.1)

/-- **The upload that installed its file last** at an address. -/
def lastInstaller (calls : ι → Call) (history : List (ι × Turn)) (address : Address) : Option ι :=
  ((installers history).filter fun i => (calls i).address = address).getLast?

omit [DecidableEq ι] in
theorem installers_snoc (history : List (ι × Turn)) (i : ι) (t : Turn) :
    installers (history ++ [(i, t)])
      = if t.installs then installers history ++ [i] else installers history := by
  unfold installers
  rw [List.filter_append, List.map_append]
  cases h : t.installs <;> simp [h]

omit [DecidableEq ι] in
theorem lastInstaller_snoc (history : List (ι × Turn)) (i : ι) (t : Turn) (address : Address) :
    lastInstaller calls (history ++ [(i, t)]) address
      = if t.installs ∧ (calls i).address = address then some i
        else lastInstaller calls history address := by
  unfold lastInstaller
  rw [installers_snoc]
  cases t.installs with
  | false => simp
  | true =>
    by_cases here : (calls i).address = address
    · simp [here]
    · simp [here]

omit [DecidableEq ι] in
theorem of_lastInstaller_eq_some {history : List (ι × Turn)} {address : Address}
    (h : lastInstaller calls history address = some i) :
    i ∈ installers history ∧ (calls i).address = address := by
  simpa using List.mem_filter.1 (List.mem_of_getLast? h)

omit [DecidableEq ι] in
theorem lastInstaller_isSome {history : List (ι × Turn)} (h : i ∈ installers history) :
    (lastInstaller calls history (calls i).address).isSome := by
  unfold lastInstaller
  rw [List.getLast?_isSome]
  exact List.ne_nil_of_mem (List.mem_filter.2 ⟨h, by simp⟩)

/-- The object at an address is the one from the start, or the whole file of the upload that
installed its file last. -/
def LastInstalled (calls : ι → Call) (store : Depot Unit) (history : List (ι × Turn))
    (w : Flight ι) (address : Address) : Prop :=
  match lastInstaller calls history address with
  | none => w.store.objects address = store.objects address
  | some i => ∃ content, (calls i).disk.bytesAt (calls i).file = .ok content ∧
      w.store.objects address = some ⟨content, .artifact⟩

/-- What is known after any number of turns. -/
structure TiedSince (calls : ι → Call) (store : Depot Unit) (history : List (ι × Turn))
    (share : ι → Share) (w : Flight ι) : Prop where
  tied : Tied calls share w
  installed : ∀ i, share i = .installed ↔ i ∈ installers history
  once : (installers history).Nodup
  objects : ∀ address, LastInstalled calls store history w address

/-- **Any number of turns.**  The induction is on the history, the last turn first. -/
theorem tied_run {store : Depot Unit} {history : List (ι × Turn)}
    (run : Flight.Run calls (Flight.start calls store) history w) :
    ∃ share, TiedSince calls store history share w := by
  induction run with
  | nil =>
    exact ⟨fun _ => .idle, tied_start calls store, fun i => iff_of_false nofun List.not_mem_nil,
      List.nodup_nil, fun _ => rfl⟩
  | @snoc history w w' i t run step ih =>
    obtain ⟨share, tied, installed, once, objects⟩ := ih
    obtain ⟨v, tied', changes⟩ := tied_step tied step
    cases hinstalls : t.installs with
    | false =>
      obtain ⟨same, untouched⟩ := changes.untouched hinstalls
      have before : installers (history ++ [(i, t)]) = installers history := by
        rw [installers_snoc, hinstalls]
        exact if_neg nofun
      refine ⟨Function.update share i v, tied', fun j => ?_, before ▸ once, fun address => ?_⟩
      · rw [before]
        by_cases hj : j = i
        · subst hj
          rw [Function.update_self, same, installed]
        · rw [Function.update_of_ne hj, installed]
      · have h := objects address
        unfold LastInstalled at h ⊢
        rw [lastInstaller_snoc, if_neg (fun given => by simp [hinstalls] at given), untouched]
        exact h
    | true =>
      obtain ⟨first, now, content, whole, put⟩ := changes.installed hinstalls
      have after : installers (history ++ [(i, t)]) = installers history ++ [i] := by
        rw [installers_snoc, hinstalls]
        exact if_pos rfl
      refine ⟨Function.update share i v, tied', fun j => ?_, ?_, fun address => ?_⟩
      · rw [after]
        by_cases hj : j = i
        · subst hj
          simp [now]
        · simp [installed, hj]
      · -- Nothing was installed by the same upload before.
        rw [after, List.nodup_append]
        refine ⟨once, List.nodup_singleton i, fun j hj k hk => ?_⟩
        cases List.mem_singleton.1 hk
        intro same
        exact first ((installed i).2 (same ▸ hj))
      · have h := objects address
        unfold LastInstalled at h ⊢
        rw [lastInstaller_snoc, put]
        by_cases here : (calls i).address = address
        · rw [if_pos ⟨hinstalls, here⟩]
          exact ⟨content, whole, if_pos here.symm⟩
        · rw [if_neg fun given => here given.2, Depot.put, if_neg (Ne.symm here)]
          exact h

/-! ## §6. The law. -/

/-- **Uploads beside each other**, at any moment of a run. -/
structure Unmixed (calls : ι → Call) (store : Depot Unit) (history : List (ι × Turn))
    (w : Flight ι) : Prop where
  /-- At each address there is the object from the start if no upload has installed its file
  there, else the whole file of the upload that did so last. -/
  whole : ∀ address,
    match lastInstaller calls history address with
    | none => w.store.objects address = store.objects address
    | some i => (calls i).address = address ∧
        ∃ content, (calls i).disk.bytesAt (calls i).file = .ok content ∧
          w.store.objects address = some ⟨content, ⟨"public-read", "binary/octet-stream"⟩⟩
  /-- The next turn puts the whole file of its upload in its place, if it installs something. -/
  installs : ∀ i t w', Flight.Step calls w i t w' → t.installs = true →
    ∃ content, (calls i).disk.bytesAt (calls i).file = .ok content ∧
      w'.store.objects (calls i).address
        = some ⟨content, ⟨"public-read", "binary/octet-stream"⟩⟩ ∧
      ∀ other, other ≠ (calls i).address → w'.store.objects other = w.store.objects other
  /-- If it does not, it touches no object. -/
  untouched : ∀ i t w', Flight.Step calls w i t w' → t.installs = false →
    w'.store.objects = w.store.objects
  /-- No upload installs its file twice. -/
  once : (installers history).Nodup
  /-- An upload that has succeeded has installed its file. -/
  succeeded : ∀ i, w.left i = .done (.ok ()) → i ∈ installers history
  /-- An upload that has failed has installed nothing. -/
  failed : ∀ i f, w.left i = .done (.error f) → i ∉ installers history
  /-- Once all uploads have ended, an address to which one succeeded has the whole file of the
  successful upload that installed its file last. -/
  settled : (∀ i, ∃ result, w.left i = .done result) →
    ∀ i, w.left i = .done (.ok ()) →
      ∃ j content, lastInstaller calls history (calls i).address = some j ∧
        w.left j = .done (.ok ()) ∧ (calls j).address = (calls i).address ∧
        (calls j).disk.bytesAt (calls j).file = .ok content ∧
        w.store.objects (calls i).address
          = some ⟨content, ⟨"public-read", "binary/octet-stream"⟩⟩

/-- **Uploads beside each other never mix**, however many there are, in whatever order they take
their turns, and whichever of their requests fail. -/
theorem concurrent_uploads (calls : ι → Call) (store : Depot Unit) {history : List (ι × Turn)}
    {w : Flight ι} (run : Flight.Run calls (Flight.start calls store) history w) :
    Unmixed calls store history w := by
  obtain ⟨share, tied, installed, once, objects⟩ := tied_run run
  -- An upload that has ended has told in its result whether it installed its file.
  have ended : ∀ i result, w.left i = .done result →
      (result = .ok () ↔ i ∈ installers history) := by
    intro i result hdone
    have settled := tied.plays i
    rw [hdone] at settled
    exact Iff.trans settled (installed i)
  have succeeded : ∀ i, w.left i = .done (.ok ()) → i ∈ installers history :=
    fun i hdone => (ended i _ hdone).1 rfl
  have whole : ∀ {address i}, lastInstaller calls history address = some i →
      ∃ content, (calls i).disk.bytesAt (calls i).file = .ok content ∧
        w.store.objects address = some ⟨content, .artifact⟩ := by
    intro address i hlast
    have h := objects address
    unfold LastInstalled at h
    rw [hlast] at h
    exact h
  refine ⟨?whole, ?installs, ?untouched, once, succeeded, ?failed, ?settled⟩
  case whole =>
    intro address
    have h := objects address
    unfold LastInstalled at h
    cases hlast : lastInstaller calls history address with
    | none =>
      rw [hlast] at h
      exact h
    | some i => exact ⟨(of_lastInstaller_eq_some hlast).2, whole hlast⟩
  case installs =>
    intro i t w' step hinstalls
    obtain ⟨v, -, changes⟩ := tied_step tied step
    obtain ⟨-, -, content, hbytes, put⟩ := changes.installed hinstalls
    refine ⟨content, hbytes, ?_, fun other hother => ?_⟩
    · rw [put, Depot.put, if_pos rfl]
      rfl
    · rw [put, Depot.put, if_neg hother]
  case untouched =>
    intro i t w' step hinstalls
    obtain ⟨v, -, changes⟩ := tied_step tied step
    exact (changes.untouched hinstalls).2
  case failed =>
    intro i f hdone hmem
    cases (ended i _ hdone).2 hmem
  case settled =>
    intro all i hdone
    obtain ⟨j, hlast⟩ := Option.isSome_iff_exists.1 (lastInstaller_isSome (succeeded i hdone))
    obtain ⟨hmem, haddress⟩ := of_lastInstaller_eq_some hlast
    obtain ⟨content, hbytes, hobject⟩ := whole hlast
    obtain ⟨result, hj⟩ := all j
    obtain rfl := (ended j result hj).2 hmem
    exact ⟨j, content, hlast, hj, haddress, hbytes, hobject⟩

/-! ## §7. Conversations that go on alone. -/

/-- A conversation that can go some way takes the first of its turns. -/
theorem Exchange.Goes.takes {x : Exchange α} {t : Turn} {turns : List Turn} {a : α}
    (h : Exchange.Goes x (t :: turns) a) : ∃ y, x.Takes t y ∧ Exchange.Goes y turns a := by
  cases h with
  | size answer h => exact ⟨_, .size answer, h⟩
  | openFile answer h => exact ⟨_, .openFile answer, h⟩
  | readAll answer h => exact ⟨_, .readAll answer, h⟩
  | readAt answer h => exact ⟨_, .readAt answer, h⟩
  | send answer h => exact ⟨_, .send answer, h⟩
  | log h => exact ⟨_, .log, h⟩

/-- An upload can go on with some turns, none of which opens an upload in parts. -/
structure Call.CanGoOn (c : Call) (x : Exchange (Except Failure Unit)) (turns : List Turn)
    (result : Except Failure Unit) : Prop where
  goes : Exchange.Goes x turns result
  told : ∀ t ∈ turns, t.TrueOf c.disk
  quiet : ∀ t ∈ turns, ∀ d, t.Fresh d

/-- **One upload goes on alone** for some of its turns, and the others can go on as before. -/
theorem Flight.Run.goesOn {calls : ι → Call} {w w' : Flight ι} {history : List (ι × Turn)} {i : ι}
    {turns : List Turn} {result : Except Failure Unit} (run : Flight.Run calls w history w')
    (h : (calls i).CanGoOn (w'.left i) turns result) (n : Nat) :
    ∃ w'', Flight.Run calls w (history ++ (turns.take n).map (i, ·)) w'' ∧
      (calls i).CanGoOn (w''.left i) (turns.drop n) result ∧
      ∀ j, j ≠ i → ∀ {turns result}, (calls j).CanGoOn (w'.left j) turns result →
        (calls j).CanGoOn (w''.left j) turns result := by
  induction n generalizing history w' turns with
  | zero =>
    exact ⟨w', by rwa [List.take_zero, List.map_nil, List.append_nil], h, fun _ _ _ _ h => h⟩
  | succ n ih =>
    obtain ⟨goes, told, quiet⟩ := h
    cases turns with
    | nil =>
      refine ⟨w', ?_, ⟨goes, told, quiet⟩, fun _ _ _ _ h => h⟩
      rwa [List.take_nil, List.map_nil, List.append_nil]
    | cons t turns =>
      rw [List.forall_mem_cons] at told quiet
      obtain ⟨next, takes, goes⟩ := goes.takes
      have step := run.snoc (.turn takes told.1 (quiet.1 w'.store))
      have left : (calls i).CanGoOn (Function.update w'.left i next i) turns result := by
        rw [Function.update_self]
        exact ⟨goes, told.2, quiet.2⟩
      obtain ⟨w'', run', h', others⟩ := ih step left
      refine ⟨w'', ?_, h', fun j hj turns result other => others j hj ?_⟩
      · rw [List.take_succ_cons, List.map_cons, List.append_cons]
        exact run'
      · dsimp only
        rwa [Function.update_of_ne hj]

/-- An upload that has no turn left has ended. -/
theorem Call.CanGoOn.eq_done {c : Call} {x : Exchange (Except Failure Unit)}
    {result : Except Failure Unit} (h : c.CanGoOn x [] result) : x = .done result := by
  cases h.goes
  rfl

namespace Upload

variable {address : Address} {uploadId : String} {id : NodeId} {size number left : Nat}

/-- What the parts of a file of zeros are read as. -/
theorem trueOf_smoothTurns {disk : FileSystem} (hread : disk.readAll id = .ok (zeros size)) :
    ∀ t ∈ smoothTurns address uploadId id size number left, t.TrueOf disk := by
  induction left generalizing number with
  | zero => exact fun _ h => absurd h List.not_mem_nil
  | succ left ih =>
    unfold smoothTurns
    simp only [List.forall_mem_cons]
    refine ⟨?_, trivial, ih⟩
    have within : partLength size number ≤ size - partStart number :=
      Nat.sub_le_sub_right (Nat.min_le_right _ _) _
    show _ = disk.readAt _ _ _
    rw [FileSystem.readAt, hread, Except.map, extract_zeros, Nat.min_eq_left within]

theorem fresh_smoothTurns :
    ∀ t ∈ smoothTurns address uploadId id size number left, ∀ d, t.Fresh d := by
  induction left generalizing number with
  | zero => exact fun _ h => absurd h List.not_mem_nil
  | succ left ih =>
    unfold smoothTurns
    simp only [List.forall_mem_cons]
    exact ⟨fun _ => trivial, fun _ => trivial, ih⟩

end Upload

/-- A disk with two small files and a large one. -/
def rivalDisk : FileSystem where
  nodes := #[
    ⟨.directory [⟨RawText.ofString "a", 1⟩, ⟨RawText.ofString "b", 2⟩, ⟨RawText.ofString "c", 3⟩]
      FileSystem.root, Node.directoryMode, 0⟩,
    Node.file (.ofBytes "first".toUTF8),
    Node.file (.ofBytes "second".toUTF8),
    Node.file ⟨[.hole Upload.sampleSize]⟩]
  workingDirectory := FileSystem.root
  workingPath := Path.ofString "/"
  tempPath := Path.ofString "/"

inductive Rival where
  | first
  | second
  | large
deriving DecidableEq

/-- Three uploads to the same address. -/
def rivals : Rival → Call
  | .first => ⟨Upload.sampleAddress, Path.ofString "/a", rivalDisk⟩
  | .second => ⟨Upload.sampleAddress, Path.ofString "/b", rivalDisk⟩
  | .large => ⟨Upload.sampleAddress, Path.ofString "/c", rivalDisk⟩

theorem readAll_rivalDisk : rivalDisk.readAll 3 = .ok (zeros Upload.sampleSize) :=
  congrArg Except.ok ByteArray.empty_append

theorem bytesAt_rivalDisk :
    rivalDisk.bytesAt (Path.ofString "/c") = .ok (zeros Upload.sampleSize) := by
  have opened : rivalDisk.openRead (Path.ofString "/c") = .ok 3 := by cbv
  unfold FileSystem.bytesAt
  rw [opened]
  exact readAll_rivalDisk

namespace Upload

/-- The turns of a small rival. -/
def smallTurns (path : Path) (id : NodeId) (body : ByteArray) : List Turn :=
  [.size path (.ok body.size), .openFile path (.ok id), .readAll id (.ok body),
    .send (.put sampleAddress body.size body) (.ok none)]

theorem canGoOn_smallTurns (path : Path) (id : NodeId) (body : ByteArray)
    (small : body.size ≤ Defaults.largeFileThreshold)
    (hsize : .ok body.size = (rivalDisk.stat path).map Node.size)
    (hopen : .ok id = rivalDisk.openRead path) (hread : .ok body = rivalDisk.readAll id) :
    (Call.mk sampleAddress path rivalDisk).CanGoOn (file sampleAddress path).run
      (smallTurns path id body) (.ok ()) := by
  refine ⟨goes_sizeOf_bind.2 ⟨.ok body.size, _, rfl, goes_orFail_bind.2 ?_⟩, ?_, ?_⟩
  · dsimp only
    rw [if_neg (Nat.not_lt.2 small)]
    exact .openFile _ (.readAll _ (.send _ (.done _)))
  · simp only [smallTurns, List.forall_mem_cons]
    exact ⟨hsize, hopen, hread, trivial, fun _ h => absurd h List.not_mem_nil⟩
  · simp only [smallTurns, List.forall_mem_cons]
    exact ⟨fun _ => trivial, fun _ => trivial, fun _ => trivial, fun _ => trivial,
      fun _ h => absurd h List.not_mem_nil⟩

/-- The turns of the large rival, once its upload in parts is open. -/
def largeTurns : List Turn :=
  .openFile (Path.ofString "/c") (.ok 3) :: smoothTurns sampleAddress "upload-1" 3 sampleSize 1 7
    ++ [.send (.completeMultipart sampleAddress "upload-1" (smoothParts 1 7)) (.ok none)]

theorem goes_largeTurns :
    Goes (file sampleAddress (Path.ofString "/c"))
      (.size (Path.ofString "/c") (.ok sampleSize) ::
        .send (.create sampleAddress) (.ok (some "upload-1")) :: largeTurns) (.ok ()) := by
  have parts : partCount sampleSize = 7 := by decide
  have sent : Goes (sendParts sampleAddress "upload-1" (Path.ofString "/c") sampleSize)
      (.openFile (Path.ofString "/c") (.ok 3) ::
        smoothTurns sampleAddress "upload-1" 3 sampleSize 1 7) (.ok (smoothParts 1 7)) := by
    refine goes_openFile_bind.2 ⟨_, _, rfl, goes_orFail_bind.2 ?_⟩
    rw [parts]
    exact goes_smoothTurns ..
  refine goes_sizeOf_bind.2 ⟨.ok sampleSize, _, rfl, goes_orFail_bind.2 ?_⟩
  dsimp only
  rw [if_pos (by decide)]
  refine goes_bind.2 (.inr ⟨"upload-1", [_], _, rfl, .send _ (.done _), ?_⟩)
  exact goes_bind.2 (.inr ⟨_, _, _, rfl, goes_tryCatch.2 (.inl ⟨_, sent, rfl⟩),
    goes_send_bind.2 ⟨.ok none, [], rfl, goes_pure.2 ⟨rfl, rfl⟩⟩⟩)

theorem trueOf_largeTurns : ∀ t ∈ largeTurns, t.TrueOf rivalDisk := by
  unfold largeTurns
  rw [List.forall_mem_append, List.forall_mem_cons, List.forall_mem_singleton]
  exact ⟨⟨by cbv, trueOf_smoothTurns readAll_rivalDisk⟩, trivial⟩

theorem fresh_largeTurns : ∀ t ∈ largeTurns, ∀ d, t.Fresh d := by
  unfold largeTurns
  rw [List.forall_mem_append, List.forall_mem_cons, List.forall_mem_singleton]
  exact ⟨⟨fun _ => trivial, fresh_smoothTurns⟩, fun _ => trivial⟩

end Upload

/-- A large file and two small ones on their way to the same address: the small ones are put there
between the parts of the large one, which is there as a whole in the end. -/
theorem rivals_unmixed :
    ∃ history w,
      Flight.Run rivals (Flight.start rivals ⟨fun _ => none, fun _ => none, ()⟩) history w ∧
      (∀ i, w.left i = .done (.ok ())) ∧
      w.store.objects Upload.sampleAddress
        = some ⟨zeros Upload.sampleSize, ⟨"public-read", "binary/octet-stream"⟩⟩ := by
  have first := Upload.canGoOn_smallTurns (Path.ofString "/a") 1 "first".toUTF8 (by decide)
    (by cbv) (by cbv) (by cbv)
  have second := Upload.canGoOn_smallTurns (Path.ofString "/b") 2 "second".toUTF8 (by decide)
    (by cbv) (by cbv) (by cbv)
  -- The large rival opens its upload in parts.
  obtain ⟨_, takes₁, goes⟩ := Upload.goes_largeTurns.takes
  obtain ⟨_, takes₂, goes⟩ := goes.takes
  have large := Call.CanGoOn.mk (c := rivals .large) goes Upload.trueOf_largeTurns
    Upload.fresh_largeTurns
  have toldSize : (Turn.size (Path.ofString "/c") (.ok Upload.sampleSize)).TrueOf rivalDisk := by cbv
  have run : Flight.Run rivals (Flight.start rivals ⟨fun _ => none, fun _ => none, ()⟩) [] _ := .nil
  have run := run.snoc (.turn (i := Rival.large) takes₁ toldSize trivial)
  have run := run.snoc (.turn (i := Rival.large) takes₂ trivial rfl)
  -- The first small one has asked for its size when the large one sends a part.
  obtain ⟨_, run, first, others⟩ := run.goesOn (i := Rival.first) first 1
  obtain ⟨_, run, large, others'⟩ := run.goesOn (others .large (by decide) large) 3
  have first := others' .first (by decide) first
  have second := others' .second (by decide) (others .second (by decide) second)
  -- The second one is put there, the large one sends all other parts, and the first one is put there.
  obtain ⟨_, run, second, others⟩ := run.goesOn second 4
  obtain ⟨_, run, large, others'⟩ := run.goesOn (others .large (by decide) large) 12
  obtain ⟨_, run, first, others''⟩ := run.goesOn (others' .first (by decide)
    (others .first (by decide) first)) 3
  have second := others'' .second (by decide) (others' .second (by decide) second)
  -- The large one is completed.
  obtain ⟨w, run, large, others⟩ := run.goesOn (others'' .large (by decide) large) 1
  have ended : ∀ i, w.left i = .done (.ok ()) := by
    intro i
    cases i with
    | first => exact (others .first (by decide) first).eq_done
    | second => exact (others .second (by decide) second).eq_done
    | large => exact large.eq_done
  obtain ⟨j, content, last, -, -, hbytes, hobject⟩ :=
    (concurrent_uploads rivals _ run).settled (fun i => ⟨_, ended i⟩) .large (ended .large)
  -- Its last turn was the last to put an object there.
  have installed := (lastInstaller_snoc _ Rival.large (.send (.completeMultipart
    Upload.sampleAddress "upload-1" (Upload.smoothParts 1 7)) (.ok none)) _).symm.trans last
  rw [if_pos ⟨rfl, rfl⟩] at installed
  obtain rfl := Option.some.inj installed
  obtain rfl := Except.ok.inj (bytesAt_rivalDisk.symm.trans hbytes)
  exact ⟨_, w, run, ended, hobject⟩

end ArtifactCourier.Store
