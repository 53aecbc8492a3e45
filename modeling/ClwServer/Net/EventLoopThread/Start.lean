import ClwServer.Base.AsyncLogging.Start
import ClwServer.Net.EventLoopThread

/-!
# Starting the thread of a loop

`EventLoopThread::startLoop` creates the child thread, whatever `Thread::start` returns, and waits
on `cond_` until the child has published `loop_`. Behind the section it reads `loop_` once more,
to return it.
-/

namespace ClwServer.EventLoopThread

open EventLoop (Obs IsQuit Unquit)

variable {F : Type}

/-- What happens beside `startLoop`. Until it returns, nobody issues a `quit`. -/
def Beside (s : State F) : Event F → Prop
  | .owner => Returned s
  | .on e => Returned s ∨ ¬IsQuit e
  | .child | .destroy => True

instance (s : State F) (e : Event F) : Decidable (Beside s e) :=
  match e with
  | .owner => inferInstanceAs (Decidable (Returned s))
  | .on e => inferInstanceAs (Decidable (Returned s ∨ ¬IsQuit e))
  | .child | .destroy => inferInstanceAs (Decidable True)

/-- `startLoop` and the head of `ThreadFunc`. The constructor of `loop` comes before the section
under `mutex_`. -/
def startLoop (F : Type) : Handshake (State F) (Event F) (Obs F) Bool where
  init := init F
  create s := { s with owner := .starting, child := .constructing }
  -- `EventLoop loop;`
  prepare s := { s with child := .publishing }
  -- `loop_ = &loop;` and `cond_.signal();`
  set s := { s with loop_ := true, child := .looping }
  notifies _ := true
  -- `while (loop_ == NULL)`
  ready s := s.loop_
  -- `return loop_;`
  value s := s.loop_
  leave s := { s with owner := .started }
  run s e := if Beside s e then step s e else none

/-- The child has published its loop, and runs it until `startLoop` has returned. -/
structure Published (s : State F) : Prop where
  loop_ : s.loop_ = true
  child : s.child = .looping
  owner : s.owner = .starting
  loop : Unquit s.loop

lemma Published.not_returned {s : State F} (hs : Published s) : ¬Returned s :=
  fun h => h.2 hs.owner

lemma Published.of_step {s t : State F} {e : Event F} {o : List (Obs F)} (hs : Published s)
    (hbeside : Beside s e) (h : step s e = some (t, o)) : Published t := by
  cases e with
  | child =>
    simp only [step, threadFunc, hs.child, if_neg hs.loop.done, Option.map_none] at h
    cases h
  | owner => exact absurd hbeside hs.not_returned
  | destroy =>
    simp only [step] at h
    split at h
    · rename_i hstarted
      rw [hs.owner] at hstarted
      cases hstarted.1
    · cases h
  | on e =>
    have hquit : ¬IsQuit e := hbeside.resolve_left hs.not_returned
    obtain ⟨⟨l, o'⟩, hl, heq⟩ := Option.map_eq_some_iff.mp (step_on.mp h).2
    cases heq
    exact ⟨hs.loop_, hs.child, hs.owner, hs.loop.of_step hl hquit⟩

lemma startLoop_keeps : (startLoop F).Keeps Published where
  init := rfl
  create := rfl
  prepare := rfl
  notifies := rfl
  published := ⟨rfl, rfl, rfl, rfl, nofun, nofun⟩
  ready h := h.loop_
  run hs h := by
    simp only [startLoop] at h
    split at h
    · exact hs.of_step ‹_› h
    · cases h

/-- What the threads do in `startLoop` are steps of the owner and of the child. -/
lemma startLoop_within : (startLoop F).Within (system F) Published where
  init := rfl
  create := .single (e := .owner) rfl
  prepare := .single (e := .child) rfl
  set := .single (e := .child) rfl
  leave {s} hs := by
    refine .single (e := .owner) ?_
    simp only [system, step, ownerStep, hs.owner]
    exact if_pos hs.loop_
  run {s t e o} h := by
    simp only [startLoop] at h
    split at h
    · exact .single (e := e) h
    · cases h

/-- A run of `startLoop` is one of the `EventLoopThread`. -/
theorem run_of_startLoop {created : Bool} {obs : List (Obs F)}
    {s : Handshake.State (State F) Bool} (h : ((startLoop F).system created).Run obs s) :
    (system F).Run obs s.shared :=
  startLoop_within.run_shared startLoop_keeps h

/-! ### No starter is stuck -/

/-- `startLoop` returns a pointer that is not `NULL`, to a loop that the child has constructed. -/
structure Delivers (s : Handshake.State (State F) Bool) : Prop where
  alive : s.starter = .returning → Alive s.shared
  not_null : ∀ v, s.starter = .returned v → v = true

lemma delivers_of_reachable {created : Bool} {s : Handshake.State (State F) Bool}
    (h : ((startLoop F).system created).Reachable s) : Delivers s where
  alive hpc := by
    have hs := Handshake.kept_of_returning startLoop_keeps h hpc
    simp only [Alive, hs.child]
  not_null v hpc := by
    obtain ⟨u, hu, rfl⟩ := Handshake.value_of_returned startLoop_keeps h hpc
    exact hu.loop_

/-- Neither `startLoop` nor `AsyncLogging::start` hangs, in any order of the steps, if and only if
`pthread_create` succeeds for each of them. -/
theorem starters_safe_iff (F : Type) (created created' : Bool) :
    ((∀ s, ((startLoop F).system created).Reachable s →
        (startLoop F).Safe created s ∧ Delivers s) ↔ created = true) ∧
      ((∀ s, (AsyncLogging.start.system created').Reachable s →
        AsyncLogging.start.Safe created' s) ↔ created' = true) := by
  refine ⟨?_, Handshake.safe_iff AsyncLogging.start_keeps⟩
  rw [← Handshake.safe_iff (startLoop_keeps (F := F))]
  constructor
  · intro h s hs
    exact (h s hs).1
  · intro h s hs
    exact ⟨h s hs, delivers_of_reachable hs⟩

/-- Where `pthread_create` fails, `Thread::start` returns its error, nobody reads it, and both
callers wait for a thread that does not exist. -/
theorem starters_stuck :
    (∃ s, ((startLoop ℕ).system false).Run [] s ∧ (startLoop ℕ).Stuck false s) ∧
      ∃ s, (AsyncLogging.start.system false).Run [] s ∧ AsyncLogging.start.Stuck false s := by
  constructor
  · obtain ⟨s, hexec, hpc⟩ : ∃ s, ((startLoop ℕ).system false).exec
        ((startLoop ℕ).system false).init [.starter, .starter, .starter] = some (s, []) ∧
        s.starter = .waiting := ⟨_, rfl, rfl⟩
    have hrun : ((startLoop ℕ).system false).Run [] s := .of_exec _ hexec
    exact ⟨s, hrun, Handshake.stuck_of_waiting startLoop_keeps hrun.reachable hpc⟩
  · obtain ⟨s, hexec, hpc⟩ : ∃ s, (AsyncLogging.start.system false).exec
        (AsyncLogging.start.system false).init [.starter, .starter, .starter] = some (s, []) ∧
        s.starter = .waiting := ⟨_, rfl, rfl⟩
    have hrun : (AsyncLogging.start.system false).Run [] s := .of_exec _ hexec
    exact ⟨s, hrun, Handshake.stuck_of_waiting AsyncLogging.start_keeps hrun.reachable hpc⟩

end ClwServer.EventLoopThread
