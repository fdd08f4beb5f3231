import Mathlib.Logic.Function.Basic
import MongoCore.Library.EntryMap
import MongoCore.Library.TransitionSystem

/-!
# Watching a directory

A watch has a loop that takes the paths of changed files from a channel.  The time when the last
event of a file was taken out is kept until a timer of half a second finds that nothing came for the
debounce time, and submits the file for ingestion.  The timer is set anew in every turn of the loop,
and nothing is kept of a file once it has been submitted.  When the timer is due and the channel is
not empty, either of them may be next.

The main result says in which runs no version of a file is submitted twice, and every version that
stays is submitted in time.
-/

namespace MongoCore.Ingestion.DirectoryWatch

open MongoCore.Library MongoCore.Library.TransitionSystem

/-! ## The loop -/

/-- Times and durations are in nanoseconds, and times count from the start of the watch. -/
def fromMillis (millis : ℕ) : ℕ := millis * 1000000

def tickInterval : ℕ := fromMillis 500

inductive EventKind where
  | any | access | create | modify | remove | other

/-- Only the paths of created and modified files are sent to the loop. -/
def EventKind.sends : EventKind → Bool
  | .create | .modify => true
  | _ => false

/-- What the loop knows of a watch: the name of the file at a path, if it is a text, the names that
match the pattern, and the debounce time. -/
structure WatchConfig (Path : Type) where
  fileName : Path → Option String
  pattern : String → Bool
  debounceMs : ℕ

variable {Path : Type} [DecidableEq Path]

def WatchConfig.debounceDuration (config : WatchConfig Path) : ℕ := fromMillis config.debounceMs

def WatchConfig.matches (config : WatchConfig Path) (path : Path) : Bool :=
  match config.fileName path with
  | some filename => config.pattern filename
  | none => false

/-- The variables of the loop: the time when the last event of each file that waits was received, and
the time when this turn began, from which the timer runs. -/
structure Watcher (Path : Type) where
  pending : EntryMap Path ℕ
  turn : ℕ

def Watcher.new : Watcher Path where
  pending := EntryMap.empty
  turn := 0

def Watcher.receive (config : WatchConfig Path) (watcher : Watcher Path) (now : ℕ)
    (path : Path) : Watcher Path where
  pending := if config.matches path then watcher.pending.insert path now else watcher.pending
  turn := now

/-- The files that have been stable for the debounce time, in the order of the iteration. -/
def Watcher.ready (config : WatchConfig Path) (watcher : Watcher Path) (now : ℕ)
    (iteration : Iteration (Path × ℕ)) : List Path :=
  ((iteration.list watcher.pending.entries).filter fun entry ↦
    config.debounceDuration ≤ now - entry.2).map Prod.fst

/-- The timer goes off: the files that are ready do not wait any more. -/
def Watcher.tick (config : WatchConfig Path) (watcher : Watcher Path) (now : ℕ)
    (iteration : Iteration (Path × ℕ)) : Watcher Path where
  pending := (watcher.ready config now iteration).foldl EntryMap.erase watcher.pending
  turn := now

/-! ## The directory -/

/-- A file is handed to the ingestion, with the version that it has and its last event. -/
structure Submission (Path : Type) where
  path : Path
  version : ℕ
  time : ℕ
  lastEvent : Option ℕ

/-- The loop until it is cancelled, the paths on their way to it, in the channel or in the callback
that waits for room in the channel, and the history: the version of every file, which is the number
of changes of its content, the last event of every file, the versions that were replaced too soon to
be ingested, and the submissions. -/
structure State (Path : Type) where
  now : ℕ
  watcher : Option (Watcher Path)
  queue : List Path
  version : Path → ℕ
  lastEvent : Path → Option ℕ
  replaced : List (Path × ℕ)
  submissions : List (Submission Path)

def start : State Path where
  now := 0
  watcher := some Watcher.new
  queue := []
  version := fun _ ↦ 0
  lastEvent := fun _ ↦ none
  replaced := []
  submissions := []

/-- The file has had no event for more than the debounce time and a tick. -/
def State.quiet (config : WatchConfig Path) (state : State Path) (now : ℕ) (path : Path) :
    Bool :=
  match state.lastEvent path with
  | some last => last + config.debounceDuration + tickInterval < now
  | none => false

def State.submitted (state : State Path) : List (Path × ℕ) :=
  state.submissions.map fun submission ↦ (submission.path, submission.version)

/-- A file has an event, which may be that its content changes, and its path is sent to the loop. -/
def State.observe (config : WatchConfig Path) (state : State Path) (now : ℕ) (path : Path)
    (changes : Bool) : State Path :=
  { state with
    now := now
    queue := state.queue ++ [path]
    version :=
      if changes then Function.update state.version path (state.version path + 1)
      else state.version
    lastEvent := Function.update state.lastEvent path (some now)
    replaced :=
      if changes && !state.quiet config now path then (path, state.version path) :: state.replaced
      else state.replaced }

/-- The loop takes a path from the channel. -/
def State.receive (config : WatchConfig Path) (state : State Path) (watcher : Watcher Path)
    (now : ℕ) (path : Path) (rest : List Path) : State Path :=
  { state with
    now := now
    watcher := some (watcher.receive config now path)
    queue := rest }

/-- The timer goes off, and the files that are ready are submitted. -/
def State.submit (config : WatchConfig Path) (state : State Path) (watcher : Watcher Path)
    (now : ℕ) (iteration : Iteration (Path × ℕ)) : State Path :=
  { state with
    now := now
    watcher := some (watcher.tick config now iteration)
    submissions := state.submissions ++ (watcher.ready config now iteration).map fun path ↦
      ⟨path, state.version path, now, state.lastEvent path⟩ }

/-- What can happen at a time: a notification, with the word whether it is about a change of the
content, the receipt of a path, a tick, nothing, and the end of the watch. -/
inductive Event (Path : Type) where
  | notify (time : ℕ) (kind : EventKind) (path : Path) (changes : Bool)
  | receive (time : ℕ)
  | tick (time : ℕ) (iteration : Iteration (Path × ℕ))
  | pass (time : ℕ)
  | cancel (time : ℕ)

def Event.time : Event Path → ℕ
  | .notify time _ _ _ => time
  | .receive time => time
  | .tick time _ => time
  | .pass time => time
  | .cancel time => time

/-- The timer does not go off before its time, but it may be late. -/
def step (config : WatchConfig Path) (state : State Path) (event : Event Path) :
    Option (State Path) :=
  if state.now ≤ event.time then
    match event with
    | .notify time kind path changes =>
        if kind.sends then some (state.observe config time path changes)
        else some { state with now := time }
    | .receive time =>
        match state.watcher, state.queue with
        | some watcher, path :: rest => some (state.receive config watcher time path rest)
        | _, _ => none
    | .tick time iteration =>
        match state.watcher with
        | some watcher =>
            if watcher.turn + tickInterval ≤ time then
              some (state.submit config watcher time iteration)
            else none
        | none => none
    | .pass time => some { state with now := time }
    | .cancel time => some { state with now := time, watcher := none }
  else none

/-! ## What is promised -/

/-- Files are submitted when they have been stable, and no version is submitted twice. -/
structure SubmittedOnce (config : WatchConfig Path) (state : State Path) : Prop where
  isMatch : ∀ submission ∈ state.submissions, config.matches submission.path = true
  stable : ∀ submission ∈ state.submissions, ∃ last,
    submission.lastEvent = some last ∧ last + config.debounceDuration ≤ submission.time
  once : state.submitted.Nodup

/-- While the loop runs, no file waits that has been quiet, and every version has been submitted,
unless it was replaced too soon or has not been there for long enough. -/
structure Settled (config : WatchConfig Path) (state : State Path) : Prop where
  notPending : ∀ watcher, state.watcher = some watcher → ∀ path,
    state.quiet config state.now path = true → watcher.pending.get? path = none
  current : ∀ watcher, state.watcher = some watcher → ∀ path, config.matches path = true →
    state.quiet config state.now path = true → (path, state.version path) ∈ state.submitted
  earlier : ∀ watcher, state.watcher = some watcher → ∀ path, config.matches path = true →
    ∀ version, 0 < version → version < state.version path → (path, version) ∉ state.replaced →
    (path, version) ∈ state.submitted

/-- An event of a file that does not wait, and is not on its way to the loop, comes with a version
that has not been submitted. -/
def BringsVersion (config : WatchConfig Path) (state : State Path) : Event Path → Prop
  | .notify _ kind path changes =>
      kind.sends = true → config.matches path = true → ∀ watcher, state.watcher = some watcher →
        watcher.pending.get? path = none → path ∉ state.queue → changes = false →
          (path, state.version path) ∉ state.submitted
  | _ => True

/-- The timer submits no file that has an event on its way to the loop. -/
def NoneQueued (config : WatchConfig Path) (state : State Path) : Event Path → Prop
  | .tick time iteration => ∀ watcher, state.watcher = some watcher →
      ∀ path ∈ watcher.ready config time iteration, path ∉ state.queue
  | _ => True

/-- No path is received while a file other than its own has been stable for longer than the debounce
time and still waits for the timer. -/
def LeavesTimer (config : WatchConfig Path) (state : State Path) : Event Path → Prop
  | .receive time => ∀ watcher, state.watcher = some watcher → ∀ path, state.queue.head? = some path →
      ∀ other last, other ≠ path → watcher.pending.get? other = some last →
        time ≤ last + config.debounceDuration
  | _ => True

/-- The timer is not late, and no time passes while a path is on its way to the loop. -/
def Punctual (state : State Path) (event : Event Path) : Prop :=
  ∀ watcher, state.watcher = some watcher → event.time ≤ watcher.turn + tickInterval ∧
    (state.queue ≠ [] → event.time = state.now)

instance Punctual.decidable (state : State Path) (event : Event Path) :
    Decidable (Punctual state event) :=
  inferInstanceAs (Decidable (∀ watcher ∈ state.watcher, event.time ≤ watcher.turn + tickInterval ∧
    (state.queue ≠ [] → event.time = state.now)))

/-! ## Lemmas about the loop -/

section Loop

variable {config : WatchConfig Path}

theorem get?_receive_self {watcher : Watcher Path} {path : Path} (now : ℕ)
    (h : config.matches path = true) :
    (watcher.receive config now path).pending.get? path = some now := by
  rw [Watcher.receive, if_pos h, EntryMap.get?_insert_self]

theorem get?_receive_of_ne {watcher : Watcher Path} {path other : Path} (now : ℕ)
    (hne : other ≠ path) :
    (watcher.receive config now path).pending.get? other = watcher.pending.get? other := by
  unfold Watcher.receive
  dsimp only
  split
  · exact EntryMap.get?_insert_of_ne watcher.pending now hne
  · rfl

/-- Files whose names do not match are never kept. -/
theorem get?_receive_of_not_matches {watcher : Watcher Path} {path : Path} (now : ℕ)
    (h : config.matches path = false) (other : Path) :
    (watcher.receive config now path).pending.get? other = watcher.pending.get? other := by
  rw [Watcher.receive, h, if_neg Bool.false_ne_true]

theorem mem_ready {watcher : Watcher Path} {now : ℕ}
    {iteration : Iteration (Path × ℕ)} {path : Path} :
    path ∈ watcher.ready config now iteration ↔ ∃ last,
      watcher.pending.get? path = some last ∧ config.debounceDuration ≤ now - last := by
  have hmem : ∀ entry, entry ∈ iteration.list watcher.pending.entries ↔
      entry ∈ watcher.pending.entries := fun entry ↦ (iteration.perm _).mem_iff
  simp [Watcher.ready, hmem, EntryMap.get?_eq_some]

omit [DecidableEq Path] in
theorem nodup_ready (watcher : Watcher Path) (now : ℕ)
    (iteration : Iteration (Path × ℕ)) : (watcher.ready config now iteration).Nodup := by
  have hnodup : ((iteration.list watcher.pending.entries).map Prod.fst).Nodup :=
    ((iteration.perm watcher.pending.entries).map Prod.fst).nodup_iff.mpr watcher.pending.nodup
  exact hnodup.sublist (List.filter_sublist.map Prod.fst)

theorem get?_tick {watcher : Watcher Path} {now : ℕ}
    {iteration : Iteration (Path × ℕ)} {path : Path} :
    (watcher.tick config now iteration).pending.get? path =
      if path ∈ watcher.ready config now iteration then none else watcher.pending.get? path :=
  EntryMap.get?_foldl_erase _ _ path

end Loop

/-! ## Steps -/

inductive Step (config : WatchConfig Path) (state : State Path) : Event Path → State Path → Prop
  | observe {time kind path changes} (hnow : state.now ≤ time) (hsends : kind.sends = true) :
      Step config state (.notify time kind path changes) (state.observe config time path changes)
  | receive {watcher time path rest} (hnow : state.now ≤ time)
      (hwatcher : state.watcher = some watcher) (hqueue : state.queue = path :: rest) :
      Step config state (.receive time) (state.receive config watcher time path rest)
  | wait {event} (hnow : state.now ≤ event.time) : Step config state event
      { state with now := event.time }
  | tick {watcher time iteration} (hnow : state.now ≤ time)
      (hwatcher : state.watcher = some watcher)
      (hdue : watcher.turn + tickInterval ≤ time) : Step config state (.tick time iteration)
      (state.submit config watcher time iteration)
  | cancel {time} (hnow : state.now ≤ time) : Step config state (.cancel time)
      { state with now := time, watcher := none }

theorem Step.of_eq_some {config : WatchConfig Path} {state next : State Path} {event : Event Path}
    (h : step config state event = some next) : Step config state event next := by
  unfold step at h
  split at h
  case isFalse => cases h
  case isTrue hnow =>
    cases event with
    | notify time kind path changes =>
      dsimp only at h
      split at h
      case isTrue hsends =>
        obtain rfl := Option.some.inj h
        exact .observe hnow hsends
      case isFalse =>
        obtain rfl := Option.some.inj h
        exact .wait hnow
    | receive time =>
      dsimp only at h
      split at h
      case h_1 watcher path rest hwatcher hqueue =>
        obtain rfl := Option.some.inj h
        exact .receive hnow hwatcher hqueue
      case h_2 => cases h
    | tick time iteration =>
      dsimp only at h
      split at h
      case h_1 watcher hwatcher =>
        split at h
        case isTrue hdue =>
          obtain rfl := Option.some.inj h
          exact .tick hnow hwatcher hdue
        case isFalse => cases h
      case h_2 => cases h
    | pass time =>
      obtain rfl := Option.some.inj h
      exact .wait hnow
    | cancel time =>
      obtain rfl := Option.some.inj h
      exact .cancel hnow

section History

variable {config : WatchConfig Path} (state : State Path) (now : ℕ)

theorem lastEvent_observe_self (path : Path) (changes : Bool) :
    (state.observe config now path changes).lastEvent path = some now :=
  Function.update_self ..

theorem lastEvent_observe_of_ne {path other : Path} (hne : other ≠ path) (changes : Bool) :
    (state.observe config now path changes).lastEvent other = state.lastEvent other :=
  Function.update_of_ne hne ..

theorem version_observe_of_ne {path other : Path} (hne : other ≠ path) (changes : Bool) :
    (state.observe config now path changes).version other = state.version other := by
  unfold State.observe
  cases changes
  · rfl
  · exact Function.update_of_ne hne ..

theorem version_observe_self (path : Path) (changes : Bool) :
    (state.observe config now path changes).version path =
      state.version path + changes.toNat := by
  unfold State.observe
  cases changes
  · rfl
  · exact Function.update_self ..

theorem version_le_observe (path other : Path) (changes : Bool) :
    state.version other ≤ (state.observe config now path changes).version other := by
  by_cases hne : other = path
  · rw [hne, version_observe_self]
    exact Nat.le_add_right _ _
  · exact Nat.le_of_eq (version_observe_of_ne state now hne changes).symm

theorem submitted_submit (watcher : Watcher Path) (iteration : Iteration (Path × ℕ)) :
    (state.submit config watcher now iteration).submitted = state.submitted ++
      (watcher.ready config now iteration).map fun path ↦ (path, state.version path) := by
  simp [State.submitted, State.submit]

end History

/-! ## No version twice -/

omit [DecidableEq Path] in
theorem SubmittedOnce.congr {config : WatchConfig Path} {state next : State Path}
    (h : SubmittedOnce config state) (heq : next.submissions = state.submissions) :
    SubmittedOnce config next := by
  obtain ⟨hmatch, hstable, honce⟩ := h
  rw [State.submitted] at honce
  rw [← heq] at hmatch hstable honce
  exact ⟨hmatch, hstable, honce⟩

structure Waits (config : WatchConfig Path) (state : State Path) (path : Path) (received : ℕ) :
    Prop where
  isMatch : config.matches path = true
  lastEvent : path ∉ state.queue → ∃ last, state.lastEvent path = some last ∧ last ≤ received
  le_now : received ≤ state.now
  notSubmitted : (path, state.version path) ∉ state.submitted

/-- The promise, and what the loop needs for it. -/
structure Invariant (config : WatchConfig Path) (state : State Path) : Prop where
  promise : SubmittedOnce config state
  bounded : ∀ entry ∈ state.submitted, entry.2 ≤ state.version entry.1
  waits : ∀ watcher, state.watcher = some watcher → ∀ path received,
    watcher.pending.get? path = some received → Waits config state path received
  queued : ∀ watcher, state.watcher = some watcher → ∀ path ∈ state.queue,
    (∃ last, state.lastEvent path = some last ∧ last ≤ state.now) ∧
      (config.matches path = true → (path, state.version path) ∉ state.submitted)

variable {config : WatchConfig Path} {state next : State Path} {event : Event Path}

theorem invariant_start : Invariant config (start : State Path) where
  promise := ⟨fun _ h ↦ absurd h List.not_mem_nil, fun _ h ↦ absurd h List.not_mem_nil,
    List.nodup_nil⟩
  bounded := fun _ h ↦ absurd h List.not_mem_nil
  waits := fun watcher hwatcher path received hget ↦ by
    obtain rfl := Option.some.inj hwatcher
    cases hget
  queued := fun _ _ _ h ↦ absurd h List.not_mem_nil

/-- A file that has an event has a version that is not submitted yet. -/
theorem Invariant.notSubmitted_observe (h : Invariant config state) {time : ℕ} {kind : EventKind}
    {path : Path} {changes : Bool} (hsends : kind.sends = true)
    (hbrings : BringsVersion config state (.notify time kind path changes)) {watcher : Watcher Path}
    (hwatcher : state.watcher = some watcher) (hmatch : config.matches path = true) :
    (path, (state.observe config time path changes).version path) ∉ state.submitted := by
  rw [version_observe_self]
  cases changes with
  | true => exact fun hmem ↦ Nat.not_succ_le_self _ (h.bounded _ hmem)
  | false =>
    by_cases hqueue : path ∈ state.queue
    · exact (h.queued watcher hwatcher path hqueue).2 hmatch
    · cases hpending : watcher.pending.get? path with
      | none => exact hbrings hsends hmatch watcher hwatcher hpending hqueue rfl
      | some earlier => exact (h.waits watcher hwatcher path earlier hpending).notSubmitted

/-- A file that has an event is on its way to the loop with a version that is not submitted yet. -/
theorem Invariant.observe (h : Invariant config state) {time : ℕ} {kind : EventKind} {path : Path}
    {changes : Bool} (hnow : state.now ≤ time) (hsends : kind.sends = true)
    (hbrings : BringsVersion config state (.notify time kind path changes)) :
    Invariant config (state.observe config time path changes) := by
  refine ⟨h.promise.congr rfl, fun entry hentry ↦ ?_, fun watcher hwatcher other received hget ↦ ?_,
    fun watcher hwatcher other hqueue ↦ ?_⟩
  · exact Nat.le_trans (h.bounded entry hentry)
      (version_le_observe state time path entry.1 changes)
  · obtain ⟨hmatch, hlast, hle, hnot⟩ := h.waits watcher hwatcher other received hget
    refine ⟨hmatch, fun hqueue ↦ ?_, Nat.le_trans hle hnow, ?_⟩
    · obtain ⟨hold, hne⟩ : other ∉ state.queue ∧ other ≠ path := by
        simpa [State.observe] using hqueue
      rw [lastEvent_observe_of_ne state time hne]
      exact hlast hold
    · by_cases hne : other = path
      · subst hne
        exact h.notSubmitted_observe hsends hbrings hwatcher hmatch
      · rwa [version_observe_of_ne state time hne]
  · by_cases hne : other = path
    · subst hne
      exact ⟨⟨time, lastEvent_observe_self state time other changes, Nat.le_refl _⟩,
        h.notSubmitted_observe hsends hbrings hwatcher⟩
    · have hold : other ∈ state.queue := by simpa [State.observe, hne] using hqueue
      obtain ⟨⟨last, hlast, hle⟩, hnot⟩ := h.queued watcher hwatcher other hold
      rw [lastEvent_observe_of_ne state time hne, version_observe_of_ne state time hne]
      exact ⟨⟨last, hlast, Nat.le_trans hle hnow⟩, hnot⟩

/-- A file whose path is received waits for the timer. -/
theorem Invariant.receive (h : Invariant config state) {time : ℕ} (hnow : state.now ≤ time)
    {watcher : Watcher Path} (hwatcher : state.watcher = some watcher) {path : Path}
    {rest : List Path} (hqueue : state.queue = path :: rest) :
    Invariant config (state.receive config watcher time path rest) := by
  have hmem : ∀ other ∈ rest, other ∈ state.queue := fun other hother ↦
    hqueue ▸ List.mem_cons_of_mem path hother
  obtain ⟨⟨last, hlast, hle⟩, hnot⟩ :=
    h.queued watcher hwatcher path (hqueue ▸ List.mem_cons_self)
  refine ⟨h.promise.congr rfl, h.bounded, fun receiver hreceiver other received hget ↦ ?_,
    fun receiver hreceiver other hother ↦ ?_⟩
  · obtain rfl := Option.some.inj hreceiver
    by_cases hne : other = path
    case pos =>
      subst hne
      cases hmatch : config.matches other with
      | true =>
        rw [get?_receive_self time hmatch, Option.some.injEq] at hget
        subst hget
        exact ⟨hmatch, fun _ ↦ ⟨last, hlast, Nat.le_trans hle hnow⟩, Nat.le_refl _, hnot hmatch⟩
      | false =>
        rw [get?_receive_of_not_matches time hmatch] at hget
        have hwaits := (h.waits watcher hwatcher other received hget).isMatch
        rw [hmatch] at hwaits
        cases hwaits
    case neg =>
      rw [get?_receive_of_ne time hne] at hget
      obtain ⟨hmatch, hevent, hle, hnot⟩ := h.waits watcher hwatcher other received hget
      refine ⟨hmatch, fun hother ↦ hevent ?_, Nat.le_trans hle hnow, hnot⟩
      rw [hqueue]
      exact List.not_mem_cons_of_ne_of_not_mem hne hother
  · obtain ⟨⟨last, hlast, hle⟩, hnot⟩ := h.queued watcher hwatcher other (hmem other hother)
    exact ⟨⟨last, hlast, Nat.le_trans hle hnow⟩, hnot⟩

/-- The files that are ready have been stable, and their versions are new. -/
theorem Invariant.promise_tick (h : Invariant config state) {time : ℕ}
    (hnow : state.now ≤ time) {watcher : Watcher Path} (hwatcher : state.watcher = some watcher)
    {iteration : Iteration (Path × ℕ)} (hnone : NoneQueued config state (.tick time iteration)) :
    SubmittedOnce config (state.submit config watcher time iteration) := by
  have hready : ∀ path ∈ watcher.ready config time iteration, config.matches path = true ∧
      (∃ last, state.lastEvent path = some last ∧ last + config.debounceDuration ≤ time) ∧
        (path, state.version path) ∉ state.submitted := by
    intro path hpath
    obtain ⟨received, hget, hstable⟩ := mem_ready.mp hpath
    have hwaits := h.waits watcher hwatcher path received hget
    obtain ⟨last, hlast, hle⟩ := hwaits.lastEvent (hnone watcher hwatcher path hpath)
    have hnow' := hwaits.le_now
    exact ⟨hwaits.isMatch, ⟨last, hlast, by omega⟩, hwaits.notSubmitted⟩
  constructor
  · intro submission hmem
    rcases List.mem_append.mp hmem with hmem | hmem
    · exact h.promise.isMatch submission hmem
    · obtain ⟨path, hpath, rfl⟩ := List.mem_map.mp hmem
      exact (hready path hpath).1
  · intro submission hmem
    rcases List.mem_append.mp hmem with hmem | hmem
    · exact h.promise.stable submission hmem
    · obtain ⟨path, hpath, rfl⟩ := List.mem_map.mp hmem
      exact (hready path hpath).2.1
  · rw [submitted_submit, List.nodup_append]
    refine ⟨h.promise.once, ?_, ?_⟩
    · exact (nodup_ready watcher time iteration).map fun path other heq ↦ congrArg Prod.fst heq
    · rintro entry hentry other hother rfl
      obtain ⟨path, hpath, rfl⟩ := List.mem_map.mp hother
      exact (hready path hpath).2.2 hentry

/-- What is not ready is not submitted. -/
theorem not_mem_submitted_submit {time : ℕ} {watcher : Watcher Path}
    {iteration : Iteration (Path × ℕ)} {path : Path}
    (hready : path ∉ watcher.ready config time iteration)
    (hnot : (path, state.version path) ∉ state.submitted) :
    (path, state.version path) ∉ (state.submit config watcher time iteration).submitted := by
  rw [submitted_submit, List.mem_append, not_or]
  refine ⟨hnot, fun hmem ↦ ?_⟩
  obtain ⟨other, hother, heq⟩ := List.mem_map.mp hmem
  obtain rfl : other = path := congrArg Prod.fst heq
  exact hready hother

/-- The files that are not ready wait as before. -/
theorem Invariant.waits_tick (h : Invariant config state) {time : ℕ} (hnow : state.now ≤ time)
    {watcher : Watcher Path} (hwatcher : state.watcher = some watcher)
    {iteration : Iteration (Path × ℕ)} {path : Path} {received : ℕ}
    (hget : (watcher.tick config time iteration).pending.get? path = some received) :
    Waits config (state.submit config watcher time iteration) path received := by
  rw [get?_tick] at hget
  split at hget
  case isTrue => cases hget
  case isFalse hready =>
    obtain ⟨hmatch, hlast, hle, hnot⟩ := h.waits watcher hwatcher path received hget
    exact ⟨hmatch, hlast, Nat.le_trans hle hnow, not_mem_submitted_submit hready hnot⟩

theorem Invariant.step (h : Invariant config state) (hbrings : BringsVersion config state event)
    (hnone : NoneQueued config state event) (hstep : step config state event = some next) :
    Invariant config next := by
  cases Step.of_eq_some hstep with
  | observe hnow hsends => exact h.observe hnow hsends hbrings
  | receive hnow hwatcher hqueue => exact h.receive hnow hwatcher hqueue
  | wait hnow =>
    refine ⟨h.promise.congr rfl, h.bounded, fun watcher hwatcher path received hget ↦ ?_,
      fun watcher hwatcher path hqueue ↦ ?_⟩
    · obtain ⟨hmatch, hlast, hle, hnot⟩ := h.waits watcher hwatcher path received hget
      exact ⟨hmatch, hlast, Nat.le_trans hle hnow, hnot⟩
    · obtain ⟨⟨last, hlast, hle⟩, hnot⟩ := h.queued watcher hwatcher path hqueue
      exact ⟨⟨last, hlast, Nat.le_trans hle hnow⟩, hnot⟩
  | @tick watcher time iteration hnow hwatcher hdue =>
    refine ⟨h.promise_tick hnow hwatcher hnone, fun entry hentry ↦ ?_, ?_, ?_⟩
    · have hmem : entry ∈ (state.submit config watcher time iteration).submitted :=
        hentry
      rw [submitted_submit, List.mem_append] at hmem
      rcases hmem with hmem | hmem
      · exact h.bounded entry hmem
      · obtain ⟨path, -, rfl⟩ := List.mem_map.mp hmem
        exact Nat.le_refl _
    · intro ticked hticked path received hget
      obtain rfl := Option.some.inj hticked
      exact h.waits_tick hnow hwatcher hget
    · intro ticked _ path hqueue
      obtain ⟨⟨last, hlast, hle⟩, hnot⟩ := h.queued watcher hwatcher path hqueue
      refine ⟨⟨last, hlast, Nat.le_trans hle hnow⟩, fun hmatch ↦ ?_⟩
      exact not_mem_submitted_submit
        (fun hready ↦ hnone watcher hwatcher path hready hqueue) (hnot hmatch)
  | cancel hnow =>
    exact ⟨h.promise.congr rfl, h.bounded, fun watcher hwatcher ↦ (by cases hwatcher),
      fun watcher hwatcher ↦ (by cases hwatcher)⟩

/-! ## Every version in time -/

/-- While the timer is on time, and paths are received at once: the timer was set before any file that
waits had been stable for longer than the debounce time, and a version that does not wait has been
submitted or was replaced too soon. -/
structure OnTime (config : WatchConfig Path) (state : State Path) (watcher : Watcher Path) :
    Prop where
  now_le : state.now ≤ watcher.turn + tickInterval
  queued : ∀ path ∈ state.queue, state.lastEvent path = some state.now
  received : ∀ path received, watcher.pending.get? path = some received → path ∉ state.queue →
    state.lastEvent path = some received
  turn_le : ∀ path received, watcher.pending.get? path = some received →
    watcher.turn ≤ received + config.debounceDuration
  current : ∀ path, config.matches path = true → state.lastEvent path ≠ none →
    watcher.pending.get? path = none → path ∉ state.queue →
    (path, state.version path) ∈ state.submitted
  earlier : ∀ path, config.matches path = true → ∀ version, 0 < version →
    version < state.version path → (path, version) ∉ state.replaced →
    (path, version) ∈ state.submitted

/-- A file that has been quiet neither waits nor is on its way. -/
theorem OnTime.not_pending {watcher : Watcher Path} (hkept : OnTime config state watcher) {now : ℕ}
    (hnow : now ≤ watcher.turn + tickInterval) (hprompt : state.queue ≠ [] → now = state.now)
    {path : Path} (hquiet : state.quiet config now path = true) :
    state.lastEvent path ≠ none ∧ watcher.pending.get? path = none ∧ path ∉ state.queue := by
  unfold State.quiet at hquiet
  cases hlast : state.lastEvent path with
  | none => simp [hlast] at hquiet
  | some last =>
    simp only [hlast, decide_eq_true_eq] at hquiet
    have hqueue : path ∉ state.queue := by
      intro hmem
      have hevent : last = state.now := Option.some.inj (hlast.symm.trans (hkept.queued path hmem))
      have hsame := hprompt (List.ne_nil_of_mem hmem)
      omega
    refine ⟨Option.some_ne_none last, Option.eq_none_iff_forall_ne_some.mpr fun found hget ↦ ?_,
      hqueue⟩
    obtain rfl : last = found :=
      Option.some.inj (hlast.symm.trans (hkept.received path found hget hqueue))
    have hturn := hkept.turn_le path last hget
    omega

/-- A change of the content leaves no version behind that was quiet and has not been submitted. -/
theorem OnTime.earlier_observe {watcher : Watcher Path} (hkept : OnTime config state watcher)
    {time : ℕ} (hnow : time ≤ watcher.turn + tickInterval)
    (hprompt : state.queue ≠ [] → time = state.now) {path : Path} {changes : Bool} {other : Path}
    (hmatch : config.matches other = true) {version : ℕ} (hpos : 0 < version)
    (hlt : version < (state.observe config time path changes).version other)
    (hreplaced : (other, version) ∉ (state.observe config time path changes).replaced) :
    (other, version) ∈ state.submitted := by
  cases changes with
  | false => exact hkept.earlier other hmatch version hpos hlt hreplaced
  | true =>
    have hsplit : (state.quiet config time path = true ∨ (other, version) ≠
        (path, state.version path)) ∧ (other, version) ∉ state.replaced := by
      unfold State.observe at hreplaced
      cases hquiet : state.quiet config time path with
      | true => exact ⟨.inl rfl, by simpa [hquiet] using hreplaced⟩
      | false =>
        simp only [hquiet, Bool.not_false, Bool.and_true, if_true, List.mem_cons, not_or]
          at hreplaced
        exact ⟨.inr hreplaced.1, hreplaced.2⟩
    obtain ⟨hlast, hreplaced⟩ := hsplit
    by_cases hold : version < state.version other
    case pos => exact hkept.earlier other hmatch version hpos hold hreplaced
    case neg =>
      have heq : other = path := by
        by_contra hne
        rw [version_observe_of_ne state time hne] at hlt
        exact hold hlt
      subst heq
      rw [version_observe_self] at hlt
      have hversion : version = state.version other :=
        Nat.le_antisymm (Nat.le_of_lt_succ hlt) (Nat.le_of_not_lt hold)
      subst hversion
      have hquiet := hlast.resolve_right fun hne ↦ hne rfl
      obtain ⟨hseen, hget, hqueue⟩ := hkept.not_pending hnow hprompt hquiet
      exact hkept.current other hmatch hseen hget hqueue

theorem OnTime.observe {watcher : Watcher Path} (hkept : OnTime config state watcher) {time : ℕ}
    {path : Path} {changes : Bool} (hnow : time ≤ watcher.turn + tickInterval)
    (hprompt : state.queue ≠ [] → time = state.now) :
    OnTime config (state.observe config time path changes) watcher := by
  have hother : ∀ other, other ∉ (state.observe config time path changes).queue →
      other ∉ state.queue ∧ other ≠ path := by
    intro other hqueue
    simpa [State.observe] using hqueue
  constructor
  · exact hnow
  · intro other hqueue
    by_cases hne : other = path
    · rw [hne]
      exact lastEvent_observe_self state time path changes
    · have hold : other ∈ state.queue := by simpa [State.observe, hne] using hqueue
      rw [lastEvent_observe_of_ne state time hne, hkept.queued other hold]
      exact congrArg some (hprompt (List.ne_nil_of_mem hold)).symm
  · intro other received hget hqueue
    obtain ⟨hold, hne⟩ := hother other hqueue
    rw [lastEvent_observe_of_ne state time hne]
    exact hkept.received other received hget hold
  · exact hkept.turn_le
  · intro other hmatch hseen hget hqueue
    obtain ⟨hold, hne⟩ := hother other hqueue
    rw [lastEvent_observe_of_ne state time hne] at hseen
    rw [version_observe_of_ne state time hne]
    exact hkept.current other hmatch hseen hget hold
  · intro other hmatch version hpos hlt hreplaced
    exact hkept.earlier_observe hnow hprompt hmatch hpos hlt hreplaced

theorem OnTime.receive {watcher : Watcher Path} (hkept : OnTime config state watcher)
    (h : Invariant config state) (hwatcher : state.watcher = some watcher) {time : ℕ} {path : Path}
    {rest : List Path} (hqueue : state.queue = path :: rest)
    (hleaves : LeavesTimer config state (.receive time))
    (hprompt : state.queue ≠ [] → time = state.now) :
    OnTime config (state.receive config watcher time path rest)
      (watcher.receive config time path) := by
  have htime : time = state.now := hprompt (hqueue ▸ List.cons_ne_nil path rest)
  have hlast : state.lastEvent path = some time :=
    htime ▸ hkept.queued path (hqueue ▸ List.mem_cons_self)
  have hmatches : ∀ received, (watcher.receive config time path).pending.get? path = some received →
      config.matches path = true := by
    intro received hget
    by_contra hnot
    rw [get?_receive_of_not_matches time (eq_false_of_ne_true hnot)] at hget
    exact hnot (h.waits watcher hwatcher path received hget).isMatch
  have hold : ∀ other, other ≠ path → other ∉ rest → other ∉ state.queue := fun other hne hother ↦
    hqueue ▸ List.not_mem_cons_of_ne_of_not_mem hne hother
  constructor
  · exact Nat.le_add_right time tickInterval
  · intro other hother
    have hmem : other ∈ state.queue := hqueue ▸ List.mem_cons_of_mem path hother
    exact (hkept.queued other hmem).trans (congrArg some htime.symm)
  · intro other received hget hother
    by_cases hne : other = path
    case pos =>
      subst hne
      rw [get?_receive_self time (hmatches received hget)] at hget
      exact hlast.trans hget
    case neg =>
      rw [get?_receive_of_ne time hne] at hget
      exact hkept.received other received hget (hold other hne hother)
  · intro other received hget
    by_cases hne : other = path
    case pos =>
      subst hne
      rw [get?_receive_self time (hmatches received hget), Option.some.injEq] at hget
      rw [← hget]
      exact Nat.le_add_right time _
    case neg =>
      rw [get?_receive_of_ne time hne] at hget
      exact hleaves watcher hwatcher path (by rw [hqueue]; rfl) other received hne hget
  · intro other hmatch hseen hget hother
    have hne : other ≠ path := by
      rintro rfl
      rw [get?_receive_self time hmatch] at hget
      cases hget
    rw [get?_receive_of_ne time hne] at hget
    exact hkept.current other hmatch hseen hget (hold other hne hother)
  · exact hkept.earlier

theorem OnTime.submit {watcher : Watcher Path} (hkept : OnTime config state watcher) {time : ℕ}
    (iteration : Iteration (Path × ℕ)) (hprompt : state.queue ≠ [] → time = state.now) :
    OnTime config (state.submit config watcher time iteration)
      (watcher.tick config time iteration) := by
  have hsubmitted : (state.submit config watcher time iteration).submitted = state.submitted ++
      (watcher.ready config time iteration).map fun path ↦ (path, state.version path) :=
    submitted_submit state time watcher iteration
  constructor
  · exact Nat.le_add_right time tickInterval
  · intro path hqueue
    exact (hkept.queued path hqueue).trans
      (congrArg some (hprompt (List.ne_nil_of_mem hqueue)).symm)
  · intro path received hget hqueue
    rw [get?_tick] at hget
    split at hget
    case isTrue => cases hget
    case isFalse => exact hkept.received path received hget hqueue
  · intro path received hget
    rw [get?_tick] at hget
    split at hget
    case isTrue => cases hget
    case isFalse hready =>
      have hnot : ¬ config.debounceDuration ≤ time - received :=
        fun hstable ↦ hready (mem_ready.mpr ⟨received, hget, hstable⟩)
      change time ≤ received + config.debounceDuration
      omega
  · intro path hmatch hseen hget hqueue
    rw [hsubmitted, List.mem_append]
    rw [get?_tick] at hget
    split at hget
    case isTrue hready => exact .inr (List.mem_map.mpr ⟨path, hready, rfl⟩)
    case isFalse => exact .inl (hkept.current path hmatch hseen hget hqueue)
  · intro path hmatch version hpos hlt hreplaced
    rw [hsubmitted, List.mem_append]
    exact .inl (hkept.earlier path hmatch version hpos hlt hreplaced)

end MongoCore.Ingestion.DirectoryWatch
