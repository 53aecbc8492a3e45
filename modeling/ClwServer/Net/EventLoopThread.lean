import ClwServer.Net.EventLoop.Quit

/-!
# One loop in one thread

`EventLoopThread.cc`: `startLoop` starts the child thread and waits until the child has published
`loop_`; the destructor quits the loop and joins the child. Between the two any thread may call
the members of the loop. The owner of the object is thread 0, and its two calls are cut where the
child can come in between. Calls on a loop that is already destroyed have no meaning and no step.
-/

namespace ClwServer.EventLoopThread

open EventLoop (Obs)

/-- Where the child thread is in `ThreadFunc`. -/
inductive Child
  /-- `thread_.start()` was not called. -/
  | ready
  /-- Before the constructor of `loop`. -/
  | constructing
  /-- Before the section under `mutex_` that sets `loop_`. -/
  | publishing
  /-- In `loop_->loop()`. -/
  | looping
  /-- Before `loop_ = NULL`. -/
  | clearing
  /-- Before the destructor of `loop`. -/
  | destroying
  | exited
  deriving DecidableEq

/-- Where the owner of the object is. -/
inductive Owner
  /-- Before `startLoop`. -/
  | created
  /-- In `startLoop`, before or in the wait for `loop_`. -/
  | starting
  /-- `startLoop` has returned. -/
  | started
  /-- In `~EventLoopThread`, before `loop_->quit()`. -/
  | quitting
  /-- In `quit`, behind `quit_ = true`. -/
  | waking
  /-- In `thread_.join()`. -/
  | joining
  | destroyed
  deriving DecidableEq

structure State (F : Type) where
  child : Child
  owner : Owner
  /-- `loop_` is not `NULL`. -/
  loop_ : Bool
  /-- The `EventLoop` on the stack of `ThreadFunc`. -/
  loop : EventLoop.State F

/-- The constructor of `EventLoopThread`. -/
def init (F : Type) : State F where
  child := .ready
  owner := .created
  loop_ := false
  loop := EventLoop.init F

variable {F : Type}

inductive Event (F : Type)
  /-- The child moves in `ThreadFunc`, outside of `loop`. -/
  | child
  /-- The owner calls `startLoop`, moves in it, or moves in the destructor. -/
  | owner
  /-- The owner begins `~EventLoopThread`. -/
  | destroy
  /-- The loop moves in `loop`, or is called. -/
  | on (e : EventLoop.Event F)
  deriving DecidableEq

/-- The thread that calls the loop, if it is not the child. -/
def caller : EventLoop.Event F → Option ℕ
  | .queue t _ | .quit t | .wake t => some t
  | _ => none

/-- `loop` is constructed and not yet destroyed. -/
def Alive (s : State F) : Prop :=
  match s.child with
  | .publishing | .looping | .clearing | .destroying => True
  | _ => False

instance (s : State F) : Decidable (Alive s) := by
  unfold Alive
  cases s.child <;> infer_instance

/-- `startLoop` has returned the pointer. -/
def Returned (s : State F) : Prop := s.owner ≠ .created ∧ s.owner ≠ .starting

instance (s : State F) : Decidable (Returned s) := inferInstanceAs (Decidable (_ ∧ _))

/-- The child runs `loop`; other threads call the loop once they can have its pointer, and the
owner outside of its destructor. -/
def Callable (s : State F) (e : EventLoop.Event F) : Prop :=
  match caller e with
  | none => s.child = .looping
  | some t => Alive s ∧ Returned s ∧ (t = 0 → s.owner = .started)

instance (s : State F) (e : EventLoop.Event F) : Decidable (Callable s e) := by
  unfold Callable
  cases caller e <;> infer_instance

/-- A step of the loop. -/
def onLoop (s : State F) (e : EventLoop.Event F) : Option (State F × List (Obs F)) :=
  (EventLoop.step s.loop e).map fun r => ({ s with loop := r.1 }, r.2)

/-- `ThreadFunc`, from the start of the thread. Nothing can use the loop before it is
constructed, so that it stands in its initial state from the beginning. -/
def threadFunc (s : State F) : Option (State F) :=
  match s.child with
  | .constructing => some { s with child := .publishing }
  | .publishing => some { s with loop_ := true, child := .looping }
  | .looping => if s.loop.pc = .done then some { s with child := .clearing } else none
  | .clearing => some { s with loop_ := false, child := .destroying }
  | .destroying => some { s with child := .exited }
  | .ready | .exited => none

/-- The owner in `startLoop` and, behind the test of `loop_`, in `~EventLoopThread`. -/
def ownerStep (s : State F) : Option (State F × List (Obs F)) :=
  match s.owner with
  | .created => some ({ s with owner := .starting, child := .constructing }, [])
  | .starting => if s.loop_ then some ({ s with owner := .started }, []) else none
  | .quitting =>
    -- `loop_` is read once more, and is `NULL` by now if the child has left its loop
    if s.loop_ ∧ Alive s then onLoop { s with owner := .waking } (.quit 0) else none
  | .waking => if Alive s then onLoop { s with owner := .joining } (.wake 0) else none
  | .joining => if s.child = .exited then some ({ s with owner := .destroyed }, []) else none
  | .started | .destroyed => none

def step (s : State F) : Event F → Option (State F × List (Obs F))
  | .child => (threadFunc s).map fun s => (s, [])
  | .owner => ownerStep s
  | .destroy =>
    if s.owner = .started ∧ s.loop.callers 0 = .idle then
      some ({ s with owner := if s.loop_ then .quitting else .destroyed }, [])
    else
      none
  | .on e => if Callable s e then onLoop s e else none

/-- An `EventLoopThread`, its owner, and the threads that use the loop. -/
def system (F : Type) : System (State F) (Event F) (Obs F) where
  init := init F
  step := step

/-! ### The loop in its thread -/

/-- The call on the loop that an event is. -/
def loopEvent (s : State F) : Event F → Option (EventLoop.Event F)
  | .on e => some e
  | .owner =>
    match s.owner with
    | .quitting => some (.quit 0)
    | .waking => some (.wake 0)
    | _ => none
  | _ => none

lemma step_child {s t : State F} {o : List (Obs F)} :
    step s .child = some (t, o) ↔ threadFunc s = some t ∧ o = [] := by
  simp only [step]
  cases threadFunc s <;> simp [eq_comm]

lemma step_on {s t : State F} {e : EventLoop.Event F} {o : List (Obs F)} :
    step s (.on e) = some (t, o) ↔ Callable s e ∧ onLoop s e = some (t, o) := by
  simp [step]

lemma step_of_onLoop {s t : State F} {e : EventLoop.Event F} {o : List (Obs F)}
    (h : onLoop s e = some (t, o)) : EventLoop.step s.loop e = some (t.loop, o) := by
  obtain ⟨⟨l, o'⟩, hl, heq⟩ := Option.map_eq_some_iff.mp h
  cases heq
  exact hl

lemma loop_of_threadFunc {s t : State F} (h : threadFunc s = some t) : t.loop = s.loop := by
  simp only [threadFunc] at h
  cases hchild : s.child <;> simp only [hchild, reduceCtorEq, Option.some.injEq] at h
  case looping =>
    split at h <;> cases h
    rfl
  all_goals exact h ▸ rfl

lemma loop_of_ownerStep {s t : State F} {o : List (Obs F)} (h : ownerStep s = some (t, o)) :
    match loopEvent s .owner with
    | some e => EventLoop.step s.loop e = some (t.loop, o)
    | none => t.loop = s.loop ∧ o = [] := by
  simp only [ownerStep] at h
  cases howner : s.owner <;> simp only [howner, reduceCtorEq] at h <;>
    simp only [loopEvent, howner]
  case created =>
    cases h
    exact ⟨rfl, rfl⟩
  case starting | joining =>
    split at h <;> cases h
    exact ⟨rfl, rfl⟩
  case quitting | waking =>
    split at h
    · have hstep := step_of_onLoop h
      exact hstep
    · cases h

/-- A step is one of the loop, or leaves the loop alone. -/
lemma loop_of_step {s t : State F} {e : Event F} {o : List (Obs F)}
    (h : (system F).step s e = some (t, o)) :
    match loopEvent s e with
    | some e => EventLoop.step s.loop e = some (t.loop, o)
    | none => t.loop = s.loop ∧ o = [] := by
  change step s e = some (t, o) at h
  cases e with
  | child =>
    obtain ⟨hchild, rfl⟩ := step_child.mp h
    exact ⟨loop_of_threadFunc hchild, rfl⟩
  | owner => exact loop_of_ownerStep h
  | destroy =>
    simp only [step] at h
    split at h <;> cases h
    exact ⟨rfl, rfl⟩
  | on e => exact step_of_onLoop (step_on.mp h).2

/-! ### A quit that is not lost -/

/-- Some `quit` has returned, and the loop thread is blocked without having seen it. -/
def QuitLost (obs : List (Obs F)) (s : State F) : Prop :=
  (∃ t, .quitReturned t ∈ obs) ∧ s.child = .looping ∧ s.loop.pc = .wait ∧
    s.loop.quit = false ∧ ¬s.loop.wakeupFd.Undelivered

/-- A call of `quit`, by the owner's destructor or by another thread, stores the flag only when
the child has executed the reset at the head of `loop`. -/
def QuitAfterReset (s : State F) (e : Event F) : Prop :=
  match loopEvent s e with
  | some e => EventLoop.StoredAfterReset s.loop e
  | none => True

instance (s : State F) (e : Event F) : Decidable (QuitAfterReset s e) := by
  unfold QuitAfterReset
  cases loopEvent s e <;> infer_instance

/-- What the thread does with its loop is a run of the loop. -/
lemma run_loop {obs : List (Obs F)} {s : State F}
    (h : ((system F).restrict QuitAfterReset).Run obs s) :
    ((EventLoop.system F).restrict EventLoop.StoredAfterReset).Run obs s.loop := by
  refine h.invariant (P := fun obs s =>
    ((EventLoop.system F).restrict EventLoop.StoredAfterReset).Run obs s.loop) .init ?_
  intro obs s e t o _ ih he
  obtain ⟨hcond, he⟩ := System.restrict_step.mp he
  have hloop := loop_of_step he
  simp only [QuitAfterReset] at hcond
  cases hevent : loopEvent s e with
  | none =>
    simp only [hevent] at hloop
    obtain ⟨hsame, rfl⟩ := hloop
    simpa only [hsame, List.append_nil] using ih
  | some e' =>
    simp only [hevent] at hloop hcond
    exact ih.step (System.restrict_step.mpr ⟨hcond, hloop⟩)

/-- A quit stored behind the reset of the flag is not lost. -/
theorem quit_not_lost {obs : List (Obs F)} {s : State F}
    (h : ((system F).restrict QuitAfterReset).Run obs s) : ¬QuitLost obs s := by
  rintro ⟨⟨t, hreturned⟩, -, -, hclear, -⟩
  have hstored : EventLoop.QuitStored obs s.loop := ⟨t, .inr hreturned⟩
  obtain ⟨-, hquit⟩ := EventLoop.quit_of_quitStored (run_loop h) hstored
  rw [hclear] at hquit
  cases hquit

/-- The destructor quits a loop that sleeps, and the child leaves it. -/
theorem quit_not_lost_destroy :
    ∃ (obs : List (Obs ℕ)) (s : State ℕ), ((system ℕ).restrict QuitAfterReset).Run obs s ∧
      .quitReturned 0 ∈ obs ∧ s.owner = .joining ∧ s.loop.pc = .wait ∧ ¬QuitLost obs s := by
  obtain ⟨obs, s, hexec, hmem, howner, hpc⟩ : ∃ obs s,
      ((system ℕ).restrict QuitAfterReset).exec (init ℕ)
        [.owner, .child, .child, .owner, .on .loop, .on .loop, .on .loop, .destroy, .owner,
          .owner] = some (s, obs) ∧
        Obs.quitReturned 0 ∈ obs ∧ s.owner = .joining ∧ s.loop.pc = .wait :=
    ⟨_, _, rfl, by decide, rfl, rfl⟩
  have hrun : ((system ℕ).restrict QuitAfterReset).Run obs s := .of_exec _ hexec
  exact ⟨obs, s, hrun, hmem, howner, hpc, quit_not_lost hrun⟩

/-- Behind such a quit the child is blocked only with a wakeup on its way. -/
theorem wakeup_of_quitReturned {obs : List (Obs F)} {s : State F} {t : ℕ}
    (h : ((system F).restrict QuitAfterReset).Run obs s) (hreturned : .quitReturned t ∈ obs)
    (hpc : s.loop.pc = .wait) :
    s.loop.wakeupFd.Undelivered ∨ ∃ t, s.loop.callers t = .quitStored := by
  have hloop := run_loop h
  obtain ⟨-, hquit⟩ := EventLoop.quit_of_quitStored hloop ⟨t, .inr hreturned⟩
  exact EventLoop.wakeup_of_quit hloop.of_restrict.reachable hpc hquit

/-- The destructor runs right behind `startLoop`, and `loop` forgets its quit: the wakeup is
consumed by the first round, and the child blocks in the second. -/
theorem quit_lost :
    ∃ (obs : List (Obs ℕ)) (s : State ℕ), (system ℕ).Run obs s ∧ s.owner = .joining ∧
      QuitLost obs s := by
  obtain ⟨obs, s, hexec, hmem, howner, hchild, hpc, hquit, hwake⟩ : ∃ obs s,
      (system ℕ).exec (init ℕ)
        [.owner, .child, .child, .owner, .destroy, .owner, .owner, .on .loop, .on .loop,
          .on .loop, .on (.poll [] [] true), .on .loop, .on .loop, .on .loop, .on .loop,
          .on .loop, .on .loop, .on .loop] = some (s, obs) ∧
        Obs.quitReturned 0 ∈ obs ∧ s.owner = .joining ∧ s.child = .looping ∧
        s.loop.pc = .wait ∧ s.loop.quit = false ∧ s.loop.wakeupFd = ⟨0, false⟩ :=
    ⟨_, _, rfl, by decide, rfl, rfl, rfl, rfl, rfl⟩
  refine ⟨obs, s, .of_exec _ hexec, howner, ⟨0, hmem⟩, hchild, hpc, hquit, ?_⟩
  rw [hwake]
  decide

end ClwServer.EventLoopThread
