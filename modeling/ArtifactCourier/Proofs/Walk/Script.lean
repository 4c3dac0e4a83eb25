/-
  ArtifactCourier.Proofs.Walk.Script
  ──────────────────────────────────────
  **What an action tells, in which order.**

  A script says what an action tells and when it uploads something; between two beats of a
  script there is work that tells nothing and may fail.  Playing a script gives chapters: lines
  of the log, and attempts to upload with all that is recorded meanwhile.

  What is attempted is told by a store that notes its attempts.  `TellsAt config w v script s`
  says that `v` is `w` with a noting store, and that what `w` tells in `s` is a playing of the
  script.

    • `Plays` — the playings of a script, complete and broken off,
    • `Bracketed` — every attempt stands between its two lines,
    • `Plays.bracketed`, `Plays.split` — what holds of every playing, by induction,
    • `TellsAt.bind`, `TellsAt.orElseCleanUp` — the ways in which actions are put together.
-/
import ArtifactCourier.Proofs.Store.Lines
import ArtifactCourier.Proofs.Walk.Counters

namespace ArtifactCourier

open Store

variable {σ α β : Type}

/-! ## §1. Stores that note their attempts. -/

/-- An attempt to upload a file. -/
structure Attempt where
  file : Path
  key : String
  /-- What was recorded meanwhile. -/
  during : List Event
  outcome : Except Failure Unit

/-- Whether the store accepted the file. -/
def Attempt.accepted (a : Attempt) : Bool := a.outcome.isOk

/-- The same session in front of a store that has noted some attempts. -/
def Session.noting (s : Session σ) (notes : List Attempt) : Session (σ × List Attempt) :=
  s.withStore (s.store, notes)

/-- A line that only a walk writes. -/
def Log.Line.isOfWalk : Log.Line → Bool
  | .scanning _ | .notRegular _ | .matchesBoth _ | .startingUpload _ _ _ | .doneUploading _
  | .compressingGzip _ | .compressingTarGz _ => true
  | _ => false

/-- Something that a store may record: no line of a walk. -/
def Event.IsOfStore (e : Event) : Prop := ∀ line, e = .log line → line.isOfWalk = false

namespace ObjectStore

/-- What is recorded while a file is uploaded. -/
def recorded (store : ObjectStore σ) (file : Path) (key : String) (s : Session σ) : List Event :=
  ((store.upload file key).perform s).2.events.toList.drop s.events.size

/-- **The same store, noting** every attempt to upload, in order. -/
def noting (store : ObjectStore σ) : ObjectStore (σ × List Attempt) where
  upload file key := ExceptT.mk fun s =>
    let before := s.withStore s.store.1
    let (result, after) := (store.upload file key).perform before
    (result, after.noting
      (s.store.2 ++ [⟨file, key, store.recorded file key before, result⟩]))

/-- **The store leaves the log to the walk**: it adds to the record, and what it adds is no line
of a walk. -/
def LeavesLog (store : ObjectStore σ) : Prop :=
  ∀ file key s,
    ((store.upload file key).perform s).2.events
      = s.events ++ (store.recorded file key s).toArray ∧
    ∀ e ∈ store.recorded file key s, e.IsOfStore

end ObjectStore

/-- What was added is what was recorded. -/
theorem ObjectStore.leavesLog_of {store : ObjectStore σ}
    (h : ∀ file key s, ∃ during : List Event, (∀ e ∈ during, e.IsOfStore) ∧
      ((store.upload file key).perform s).2.events = s.events ++ during.toArray) :
    store.LeavesLog := by
  intro file key s
  obtain ⟨during, allowed, events⟩ := h file key s
  have same : store.recorded file key s = during := by
    unfold ObjectStore.recorded
    rw [events]
    simp
  rw [same]
  exact ⟨events, allowed⟩

theorem Store.Receiver.leavesLog (r : Receiver σ) : r.toObjectStore.LeavesLog := by
  apply ObjectStore.leavesLog_of
  intro file key s
  rw [Receiver.perform_toObjectStore]
  cases s.disk.bytesAt file with
  | error e => exact ⟨[], fun _ he => absurd he List.not_mem_nil, by simp⟩
  | ok content =>
    refine ⟨[.handedOver key file content], ?_, by simp⟩
    rw [List.forall_mem_singleton]
    exact nofun

/-- A service logs at most that an upload could not be aborted. -/
theorem Store.Service.leavesLog (service : Service σ) (bucket : String) :
    (service.toObjectStore bucket).LeavesLog := by
  apply ObjectStore.leavesLog_of
  intro file key s
  rw [Service.perform_toObjectStore]
  obtain ⟨added, events, lines⟩ := service.conduct_logs
    (Upload.logs_file ⟨bucket, key⟩ file (p := fun line => line.isOfWalk = false) fun _ => rfl)
    { s with events := s.events.push (.uploading key file) }
  refine ⟨.uploading key file :: added, ?_, events.trans (by simp)⟩
  rw [List.forall_mem_cons]
  exact ⟨nofun, lines⟩

/-! ## §2. Chapters. -/

/-- A stretch of the record: a line, or all that belongs to an attempt. -/
inductive Chapter where
  | line (line : Log.Line)
  | attempt (a : Attempt)

namespace Chapter

def events : Chapter → List Event
  | line l => [.log l]
  | attempt a => a.during

def line? : Chapter → Option Log.Line
  | line l => some l
  | attempt _ => none

def attempt? : Chapter → Option Attempt
  | line _ => none
  | attempt a => some a

end Chapter

/-- The failure with which something ended, if it failed. -/
def failure? {α : Type} : Except Failure α → Option Failure
  | .ok _ => none
  | .error f => some f

/-- **The chapters of an action** in one session: they are all that it adds to the record, and
the attempts among them are all its attempts. -/
structure Told (w : Work σ α) (v : Work (σ × List Attempt) α) (s : Session σ)
    (chapters : List Chapter) : Prop where
  events : (w.perform s).2.events = s.events ++ (chapters.flatMap Chapter.events).toArray
  noted : ∀ notes, v.perform (s.noting notes)
    = ((w.perform s).1, (w.perform s).2.noting (notes ++ chapters.filterMap Chapter.attempt?))
  discreet : ∀ a, Chapter.attempt a ∈ chapters → ∀ e ∈ a.during, e.IsOfStore

namespace Told

variable {w : Work σ α} {v : Work (σ × List Attempt) α} {s s' : Session σ}
  {chapters more : List Chapter}

/-- What adds nothing to the record. -/
theorem of_silent (events : (w.perform s).2.events = s.events)
    (same : ∀ notes, v.perform (s.noting notes)
      = ((w.perform s).1, (w.perform s).2.noting notes)) : Told w v s [] := by
  refine ⟨by simp [events], fun notes => ?_, fun _ ha => absurd ha List.not_mem_nil⟩
  rw [List.filterMap_nil, List.append_nil]
  exact same notes

theorem log (line : Log.Line) :
    Told (σ := σ) (Work.log line) (Work.log line) s [.line line] := by
  refine ⟨by simp [Chapter.events], fun notes => ?_, ?_⟩
  · rw [List.filterMap_cons]
    simp only [Chapter.attempt?, List.filterMap_nil, List.append_nil]
    rfl
  · intro a ha
    cases List.mem_singleton.mp ha

theorem count (change : Report → Report) :
    Told (σ := σ) (Work.count change) (Work.count change) s [] :=
  .of_silent rfl fun _ => rfl

/-- A failure of the first action is all there is. -/
theorem bind_error {f : α → Work σ β} {g : α → Work (σ × List Attempt) β} {e : Failure}
    (h : Told w v s chapters) (hw : w.perform s = (.error e, s')) :
    Told (w >>= f) (v >>= g) s chapters := by
  obtain ⟨events, noted, discreet⟩ := h
  rw [hw] at events
  refine ⟨?_, fun notes => ?_, discreet⟩
  · rw [Work.perform_bind, hw]
    exact events
  · rw [Work.perform_bind, Work.perform_bind, noted, hw]

/-- The chapters of one action, and then those of the other. -/
theorem bind_ok {f : α → Work σ β} {g : α → Work (σ × List Attempt) β} {a : α}
    (h : Told w v s chapters) (hw : w.perform s = (.ok a, s')) (next : Told (f a) (g a) s' more) :
    Told (w >>= f) (v >>= g) s (chapters ++ more) := by
  obtain ⟨events, noted, discreet⟩ := h
  rw [hw] at events
  refine ⟨?_, fun notes => ?_, fun b hb => ?_⟩
  · rw [Work.perform_bind, hw]
    dsimp only at events ⊢
    rw [next.events, events]
    simp
  · rw [Work.perform_bind, Work.perform_bind, noted, hw]
    dsimp only
    rw [next.noted, List.filterMap_append, List.append_assoc]
  · obtain hb | hb := List.mem_append.mp hb
    · exact discreet b hb
    · exact next.discreet b hb

end Told

namespace Walk

/-! ## §3. Scripts. -/

/-- A beat of a script. -/
inductive Beat where
  /-- A line is logged. -/
  | say (line : Log.Line)
  /-- Something is done that tells nothing; it may fail in a way that has `cause`. -/
  | work (cause : Failure → Prop)
  /-- A file is uploaded under the key that belongs to a name. -/
  | upload (name : String)

variable {config : Config}

/-- The line before the upload of what is called `name`. -/
def startLine (config : Config) (name : String) : Log.Line :=
  .startingUpload name config.bucket (destinationKey config.uploadDir name)

/-- **The playings of a script**: with a failure if it was broken off. -/
inductive Plays (config : Config) : List Beat → List Chapter → Option Failure → Prop
  | nil : Plays config [] [] none
  | say {line : Log.Line} {beats : List Beat} {chapters : List Chapter} {r : Option Failure} :
      Plays config beats chapters r → Plays config (.say line :: beats) (.line line :: chapters) r
  | worked {cause : Failure → Prop} {beats : List Beat} {chapters : List Chapter}
      {r : Option Failure} :
      Plays config beats chapters r → Plays config (.work cause :: beats) chapters r
  | failed {cause : Failure → Prop} {beats : List Beat} {f : Failure} :
      cause f → Plays config (.work cause :: beats) [] (some f)
  | accepted {name : String} {beats : List Beat} {chapters : List Chapter} {r : Option Failure}
      {a : Attempt} :
      a.key = destinationKey config.uploadDir name → a.outcome = .ok () →
      Plays config beats chapters r →
      Plays config (.upload name :: beats)
        (.line (startLine config name) :: .attempt a :: .line (.doneUploading name) :: chapters) r
  | refused {name : String} {beats : List Beat} {a : Attempt} {f : Failure} :
      a.key = destinationKey config.uploadDir name → a.outcome = .error f →
      Plays config (.upload name :: beats) [.line (startLine config name), .attempt a] (some f)

/-- The lines that tell of uploads. -/
def isOfUpload : Log.Line → Bool
  | .startingUpload _ _ _ | .doneUploading _ => true
  | _ => false

/-- The line of a beat that says one. -/
def Beat.said? : Beat → Option Log.Line
  | say line => some line
  | _ => none

/-- A script that says nothing of uploads by itself. -/
def Proper (beats : List Beat) : Prop := ∀ line ∈ beats.filterMap Beat.said?, isOfUpload line = false

/-- The lines that tell of something else. -/
def otherLines (chapters : List Chapter) : List Log.Line :=
  (chapters.filterMap Chapter.line?).filter fun line => !isOfUpload line

/-- **Every attempt stands between its two lines**, and there are no such lines elsewhere.  The
second line is missing if the attempt was refused; then nothing comes after it, and the refusal
is the failure. -/
inductive Bracketed (config : Config) : List Chapter → Option Failure → Prop
  | nil {r : Option Failure} : Bracketed config [] r
  | other {line : Log.Line} {chapters : List Chapter} {r : Option Failure} :
      isOfUpload line = false → Bracketed config chapters r →
      Bracketed config (.line line :: chapters) r
  | accepted {name : String} {chapters : List Chapter} {r : Option Failure} {a : Attempt} :
      a.key = destinationKey config.uploadDir name → a.outcome = .ok () →
      Bracketed config chapters r →
      Bracketed config
        (.line (startLine config name) :: .attempt a :: .line (.doneUploading name) :: chapters) r
  | refused {name : String} {a : Attempt} {f : Failure} :
      a.key = destinationKey config.uploadDir name → a.outcome = .error f →
      Bracketed config [.line (startLine config name), .attempt a] (some f)

section plays

variable {beats beats' : List Beat} {chapters chapters' : List Chapter} {r : Option Failure}

/-- **A script that is played to its end**, and then another one. -/
theorem Plays.append (h : Plays config beats chapters none)
    (h' : Plays config beats' chapters' r) :
    Plays config (beats ++ beats') (chapters ++ chapters') r := by
  generalize hr : none = r' at h
  induction h with
  | nil => exact h'
  | say _ ih => exact .say (ih hr)
  | worked _ ih => exact .worked (ih hr)
  | failed => cases hr
  | accepted key outcome _ ih => exact .accepted key outcome (ih hr)
  | refused => cases hr

/-- A script that is broken off is broken off whatever was to come. -/
theorem Plays.cut {f : Failure} (h : Plays config beats chapters (some f)) :
    Plays config (beats ++ beats') chapters (some f) := by
  generalize hr : some f = r' at h
  induction h with
  | nil => cases hr
  | say _ ih => exact .say (ih hr)
  | worked _ ih => exact .worked (ih hr)
  | failed cause => exact .failed cause
  | accepted key outcome _ ih => exact .accepted key outcome (ih hr)
  | refused key outcome => exact .refused key outcome

/-- What a longer script is played as. -/
theorem Plays.of_append (h : Plays config (beats ++ beats') chapters none) :
    ∃ first rest, chapters = first ++ rest ∧ Plays config beats first none ∧
      Plays config beats' rest none := by
  induction beats generalizing chapters with
  | nil => exact ⟨[], chapters, rfl, .nil, h⟩
  | cons beat beats ih =>
    cases h with
    | say h =>
      obtain ⟨first, rest, rfl, hfirst, hrest⟩ := ih h
      exact ⟨_, rest, rfl, .say hfirst, hrest⟩
    | worked h =>
      obtain ⟨first, rest, rfl, hfirst, hrest⟩ := ih h
      exact ⟨_, rest, rfl, .worked hfirst, hrest⟩
    | accepted key outcome h =>
      obtain ⟨first, rest, rfl, hfirst, hrest⟩ := ih h
      exact ⟨_, rest, rfl, .accepted key outcome hfirst, hrest⟩

theorem Bracketed.append (h : Bracketed config chapters none) (h' : Bracketed config chapters' r) :
    Bracketed config (chapters ++ chapters') r := by
  generalize hr : none = r' at h
  induction h with
  | nil => exact h'
  | other line _ ih => exact .other line (ih hr)
  | accepted key outcome _ ih => exact .accepted key outcome (ih hr)
  | refused => cases hr

theorem Proper.tail {b : Beat} (h : Proper (b :: beats)) : Proper beats := by
  intro line hline
  apply h line
  rw [List.filterMap_cons]
  split
  · exact hline
  · exact List.mem_cons_of_mem _ hline

theorem Plays.bracketed (h : Plays config beats chapters r) (proper : Proper beats) :
    Bracketed config chapters r := by
  induction h with
  | nil => exact .nil
  | say _ ih => exact .other (proper _ List.mem_cons_self) (ih proper.tail)
  | worked _ ih => exact ih proper.tail
  | failed => exact .nil
  | accepted key outcome _ ih => exact .accepted key outcome (ih proper.tail)
  | refused key outcome => exact .refused key outcome

/-- **What stands around a line** that tells of no upload: the script says it, and what stands
before and behind it is what the script has before and behind. -/
theorem Plays.split {line : Log.Line} (other : isOfUpload line = false) {before after : List Chapter}
    (h : Plays config beats (before ++ .line line :: after) r) :
    ∃ first rest, beats = first ++ .say line :: rest ∧ Plays config first before none ∧
      Plays config rest after r := by
  generalize hchapters : before ++ .line line :: after = chapters at h
  induction h generalizing before with
  | nil => cases before <;> cases hchapters
  | @say said beats chapters r h ih =>
    cases before with
    | nil =>
      cases hchapters
      exact ⟨[], beats, rfl, .nil, h⟩
    | cons c before =>
      cases hchapters
      obtain ⟨first, rest, rfl, hfirst, hrest⟩ := ih rfl
      exact ⟨.say said :: first, rest, rfl, .say hfirst, hrest⟩
  | @worked cause beats chapters r h ih =>
    obtain ⟨first, rest, rfl, hfirst, hrest⟩ := ih hchapters
    exact ⟨.work cause :: first, rest, rfl, .worked hfirst, hrest⟩
  | failed => cases before <;> cases hchapters
  | @accepted name beats chapters r a key outcome h ih =>
    -- None of the three chapters of an upload is the line.
    obtain _ | ⟨_, _ | ⟨_, _ | ⟨_, before⟩⟩⟩ := before <;> cases hchapters
    · cases other
    · cases other
    · obtain ⟨first, rest, rfl, hfirst, hrest⟩ := ih rfl
      exact ⟨.upload name :: first, rest, rfl, .accepted key outcome hfirst, hrest⟩
  | refused key outcome =>
    obtain _ | ⟨_, _ | ⟨_, _ | ⟨_, before⟩⟩⟩ := before <;> cases hchapters
    cases other

/-- **The other lines are those that the script says**, up to where it was broken off. -/
theorem Plays.otherLines (h : Plays config beats chapters r) (proper : Proper beats) :
    otherLines chapters <+: beats.filterMap Beat.said? ∧
      (r = none → otherLines chapters = beats.filterMap Beat.said?) := by
  induction h with
  | nil => exact ⟨List.prefix_rfl, fun _ => rfl⟩
  | @say line beats chapters r h ih =>
    obtain ⟨front, all⟩ := ih proper.tail
    have other : isOfUpload line = false := proper line List.mem_cons_self
    have told : Walk.otherLines (.line line :: chapters) = line :: Walk.otherLines chapters := by
      simp [Walk.otherLines, Chapter.line?, other]
    rw [told, List.filterMap_cons]
    exact ⟨List.prefix_cons_inj line |>.mpr front, fun hr => congrArg (line :: ·) (all hr)⟩
  | worked _ ih => exact ih proper.tail
  | failed => exact ⟨List.nil_prefix, nofun⟩
  | accepted _ _ _ ih => exact ih proper.tail
  | refused => exact ⟨List.nil_prefix, nofun⟩

end plays

/-! ## §4. Actions that play a script. -/

/-- **What `w` tells in `s` is a playing of the script.** -/
def TellsAt (config : Config) (w : Work σ α) (v : Work (σ × List Attempt) α) (beats : List Beat)
    (s : Session σ) : Prop :=
  ∃ chapters, Told w v s chapters ∧ Plays config beats chapters (failure? (w.perform s).1)

namespace TellsAt

variable {w : Work σ α} {v : Work (σ × List Attempt) α} {beats : List Beat} {s : Session σ}

theorem pure (a : α) : TellsAt (σ := σ) config (pure a) (pure a) [] s :=
  ⟨[], .of_silent rfl fun _ => rfl, .nil⟩

theorem log (line : Log.Line) :
    TellsAt (σ := σ) config (Work.log line) (Work.log line) [.say line] s :=
  ⟨[.line line], .log line, .say .nil⟩

theorem count (change : Report → Report) :
    TellsAt (σ := σ) config (Work.count change) (Work.count change) [] s :=
  ⟨[], .count change, .nil⟩

/-- An action on the disk is work that tells nothing. -/
theorem onDisk {action : Disk α} {cause : Failure → Prop}
    (h : ∀ disk f, (action.perform disk).1 = .error f → cause f) :
    TellsAt (σ := σ) config (Work.onDisk action) (Work.onDisk action) [.work cause] s := by
  refine ⟨[], .of_silent ?_ fun notes => ?_, ?_⟩
  · rw [Work.perform_onDisk]
  · rw [Work.perform_onDisk, Work.perform_onDisk]
    rfl
  · rw [Work.perform_onDisk]
    cases hresult : (action.perform s.disk).1 with
    | ok a => exact .worked .nil
    | error f => exact .failed (h _ _ hresult)

/-- **One action after the other** plays one script after the other. -/
theorem bind {f : α → Work σ β} {g : α → Work (σ × List Attempt) β} {b c : List Beat}
    (first : TellsAt config w v b s)
    (second : ∀ a s', w.perform s = (.ok a, s') → TellsAt config (f a) (g a) c s') :
    TellsAt config (w >>= f) (v >>= g) (b ++ c) s := by
  obtain ⟨chapters, told, plays⟩ := first
  cases hw : w.perform s with
  | mk result s' =>
    rw [hw] at plays
    cases result with
    | error e =>
      refine ⟨chapters, told.bind_error hw, ?_⟩
      rw [Work.perform_bind, hw]
      exact plays.cut
    | ok a =>
      obtain ⟨more, told', plays'⟩ := second a s' hw
      refine ⟨chapters ++ more, told.bind_ok hw told', ?_⟩
      rw [Work.perform_bind, hw]
      exact plays.append plays'

/-- What tells nothing and leaves the session as it is only chooses what follows it. -/
theorem known_bind {f : α → Work σ β} {g : α → Work (σ × List Attempt) β} {a : α}
    (silent : Told w v s []) (known : w.perform s = (.ok a, s))
    (h : TellsAt config (f a) (g a) beats s) : TellsAt config (w >>= f) (v >>= g) beats s := by
  obtain ⟨chapters, told, plays⟩ := h
  refine ⟨chapters, silent.bind_ok known told, ?_⟩
  rw [Work.perform_bind, known]
  exact plays

/-- A choice that looks at the session does not look at the notes. -/
theorem get_bind {f : Session σ → Work σ α}
    {g : Session (σ × List Attempt) → Work (σ × List Attempt) α}
    (same : ∀ notes, g (s.noting notes) = g (s.noting []))
    (h : TellsAt config (f s) (g (s.noting [])) beats s) :
    TellsAt config (get >>= f) (get >>= g) beats s := by
  obtain ⟨chapters, told, plays⟩ := h
  refine ⟨chapters, ⟨?_, fun notes => ?_, told.discreet⟩, ?_⟩
  · rw [Work.perform_bind, Work.perform_get]
    exact told.events
  · rw [Work.perform_bind, Work.perform_bind, Work.perform_get, Work.perform_get]
    dsimp only
    rw [same]
    exact told.noted notes
  · rw [Work.perform_bind, Work.perform_get]
    exact plays

/-- **Cleaning up after a failure** tells nothing. -/
theorem orElseCleanUp {c : Work σ Unit} {d : Work (σ × List Attempt) Unit}
    {change : FileSystem → FileSystem} (h : TellsAt config w v beats s) (hc : CleansUp c change)
    (hd : CleansUp d change) :
    TellsAt config (Work.orElseCleanUp w c) (Work.orElseCleanUp v d) beats s := by
  obtain ⟨chapters, ⟨events, noted, discreet⟩, plays⟩ := h
  cases hw : w.perform s with
  | mk result s' =>
    rw [hw] at events plays
    refine ⟨chapters, ⟨?_, fun notes => ?_, discreet⟩, ?_⟩
    · rw [hc.perform_orElseCleanUp, hw]
      cases result <;> exact events
    · rw [hd.perform_orElseCleanUp, hc.perform_orElseCleanUp, noted, hw]
      cases result <;> rfl
    · rw [hc.perform_orElseCleanUp, hw]
      cases result <;> exact plays

end TellsAt

/-! ## §5. Scripts in turn. -/

/-- **Scripts that are played one after the other**, until one of them is broken off. -/
inductive InTurn (config : Config) : List (List Beat) → List (List Chapter) → Option Failure → Prop
  | nil : InTurn config [] [] none
  | next {beats : List Beat} {chapters : List Chapter} {scripts : List (List Beat)}
      {stories : List (List Chapter)} {r : Option Failure} :
      Plays config beats chapters none → InTurn config scripts stories r →
      InTurn config (beats :: scripts) (chapters :: stories) r
  | last {beats : List Beat} {chapters : List Chapter} {f : Failure} :
      Plays config beats chapters (some f) → InTurn config [beats] [chapters] (some f)

section turns

variable {scripts scripts' : List (List Beat)} {stories stories' : List (List Chapter)}
  {r : Option Failure}

theorem InTurn.append (h : InTurn config scripts stories none)
    (h' : InTurn config scripts' stories' r) :
    InTurn config (scripts ++ scripts') (stories ++ stories') r := by
  generalize hr : none = r' at h
  induction h with
  | nil => exact h'
  | next plays _ ih => exact .next plays (ih hr)
  | last => cases hr

theorem InTurn.bracketed (h : InTurn config scripts stories r)
    (proper : ∀ beats ∈ scripts, Proper beats) : Bracketed config stories.flatten r := by
  induction h with
  | nil => exact .nil
  | next plays _ ih =>
    obtain ⟨first, rest⟩ := List.forall_mem_cons.mp proper
    exact (plays.bracketed first).append (ih rest)
  | last plays =>
    rw [List.flatten_singleton]
    exact plays.bracketed (proper _ List.mem_cons_self)

/-- Each script has its story, and only the last one can be broken off. -/
theorem InTurn.plays (h : InTurn config scripts stories r) :
    scripts.length = stories.length ∧ ∀ beats chapters, (beats, chapters) ∈ scripts.zip stories →
      ∃ r', (r' = none ∨ r' = r) ∧ Plays config beats chapters r' := by
  induction h with
  | nil => exact ⟨rfl, fun _ _ hmem => absurd hmem List.not_mem_nil⟩
  | next plays _ ih =>
    obtain ⟨length, all⟩ := ih
    refine ⟨congrArg (· + 1) length, fun beats chapters hmem => ?_⟩
    obtain hmem | hmem := List.mem_cons.mp hmem
    · cases hmem
      exact ⟨none, .inl rfl, plays⟩
    · exact all beats chapters hmem
  | last plays =>
    refine ⟨rfl, fun beats chapters hmem => ?_⟩
    cases List.mem_singleton.mp hmem
    exact ⟨_, .inr rfl, plays⟩

end turns

/-- **What `w` tells in `s` is a playing of some scripts in turn.** -/
def TurnsAt (config : Config) (w : Work σ α) (v : Work (σ × List Attempt) α)
    (scripts : List (List Beat)) (s : Session σ) : Prop :=
  ∃ stories, Told w v s stories.flatten ∧
    InTurn config scripts stories (failure? (w.perform s).1)

namespace TurnsAt

variable {w : Work σ α} {v : Work (σ × List Attempt) α} {scripts scripts' : List (List Beat)}
  {s s' : Session σ}

/-- A script is played alone. -/
theorem single {beats : List Beat} (h : TellsAt config w v beats s) :
    TurnsAt config w v [beats] s := by
  obtain ⟨chapters, told, plays⟩ := h
  refine ⟨[chapters], by rwa [List.flatten_singleton], ?_⟩
  cases hresult : failure? (w.perform s).1 with
  | none =>
    rw [hresult] at plays
    exact .next plays .nil
  | some f =>
    rw [hresult] at plays
    exact .last plays

/-- If the first action fails, its scripts are all. -/
theorem bind_error {f : α → Work σ β} {g : α → Work (σ × List Attempt) β} {e : Failure}
    (first : TurnsAt config w v scripts s) (hw : w.perform s = (.error e, s')) :
    TurnsAt config (w >>= f) (v >>= g) scripts s := by
  obtain ⟨stories, told, turns⟩ := first
  refine ⟨stories, told.bind_error hw, ?_⟩
  rw [hw] at turns
  rw [Work.perform_bind, hw]
  exact turns

/-- **One action after the other.** -/
theorem bind_ok {f : α → Work σ β} {g : α → Work (σ × List Attempt) β} {a : α}
    (first : TurnsAt config w v scripts s) (hw : w.perform s = (.ok a, s'))
    (second : TurnsAt config (f a) (g a) scripts' s') :
    TurnsAt config (w >>= f) (v >>= g) (scripts ++ scripts') s := by
  obtain ⟨stories, told, turns⟩ := first
  obtain ⟨stories', told', turns'⟩ := second
  rw [hw] at turns
  refine ⟨stories ++ stories', ?_, ?_⟩
  · rw [List.flatten_append]
    exact told.bind_ok hw told'
  · rw [Work.perform_bind, hw]
    exact turns.append turns'

/-- What tells nothing only prepares what follows it. -/
theorem silent_bind {f : α → Work σ β} {g : α → Work (σ × List Attempt) β} {a : α}
    (silent : Told w v s []) (hw : w.perform s = (.ok a, s'))
    (h : TurnsAt config (f a) (g a) scripts s') : TurnsAt config (w >>= f) (v >>= g) scripts s := by
  obtain ⟨stories, told, turns⟩ := h
  refine ⟨stories, silent.bind_ok hw told, ?_⟩
  rw [Work.perform_bind, hw]
  exact turns

/-- What tells nothing and succeeds adds nothing in the end. -/
theorem bind_silent {f : α → Work σ β} {g : α → Work (σ × List Attempt) β}
    (first : TurnsAt config w v scripts s)
    (silent : ∀ a s', Told (f a) (g a) s' [] ∧ failure? ((f a).perform s').1 = none) :
    TurnsAt config (w >>= f) (v >>= g) scripts s := by
  cases hw : w.perform s with
  | mk result s' =>
    cases result with
    | error e => exact first.bind_error hw
    | ok a =>
      obtain ⟨told, succeeds⟩ := silent a s'
      rw [← List.append_nil scripts]
      refine first.bind_ok hw ⟨[], told, ?_⟩
      rw [succeeds]
      exact .nil

end TurnsAt

section rounds

variable {ι : Type}

/-- The rounds of a loop that begin, each with the session in which it begins. -/
def rounds (f : ι → Work σ PUnit) : List ι → Session σ → List (ι × Session σ)
  | [], _ => []
  | i :: l, s => (i, s) ::
    match (f i).perform s with
    | (.ok _, s') => rounds f l s'
    | (.error _, _) => []

/-- **A loop** plays the scripts of its rounds in turn. -/
theorem TurnsAt.forM {f : ι → Work σ PUnit} {g : ι → Work (σ × List Attempt) PUnit}
    {scripts : ι → Session σ → List (List Beat)}
    (h : ∀ i s, TurnsAt config (f i) (g i) (scripts i s) s) (l : List ι) (s : Session σ) :
    TurnsAt config (l.forM f) (l.forM g)
      ((rounds f l s).flatMap fun round => scripts round.1 round.2) s := by
  induction l generalizing s with
  | nil => exact ⟨[], .of_silent rfl fun _ => rfl, .nil⟩
  | cons i l ih =>
    rw [List.forM, List.forM, rounds, List.flatMap_cons]
    cases hround : (f i).perform s with
    | mk result s' =>
      cases result with
      | error e =>
        rw [List.flatMap_nil, List.append_nil]
        exact (h i s).bind_error hround
      | ok _ => exact (h i s).bind_ok hround (ih s')

end rounds
end Walk
end ArtifactCourier
