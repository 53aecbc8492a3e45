import ClwServer.Core.System
import ClwServer.Core.Eventfd

/-!
# The event loop

`EventLoop.cc`: the loop thread runs `loop`, and any number of other threads call `runInLoop`,
`queueInLoop` and `quit`. The calls are cut where another thread can come in between: at the end
of the section under `mutex_`, before the `write` of `wakeup`, and at every access to `quit_` and
`isPendingFunctor_`. What channel callbacks and functors do with their own loop is left open:
while one of them runs, the loop thread may call `runInLoop`, `queueInLoop` and `quit` in any
order, as often as it likes. Functors are told apart by a type `F`.
-/

namespace ClwServer.EventLoop

/-- An element of `ActiveChannels_`: the loop's own `wakeupChannel_`, or a user's channel. -/
inductive Chan
  | wakeup
  | user (id : ℕ)
  deriving DecidableEq

/-- Where the loop thread is. -/
inductive Pc
  /-- Before `looping_ = true`. -/
  | enter
  /-- Before `quit_ = false`. -/
  | clearQuit
  /-- At `while (!quit_)`. -/
  | test
  /-- In `epoll_wait` with timeout -1. -/
  | wait
  /-- In the loop over the active channels, before the first of `active`. -/
  | dispatch (active : List Chan)
  /-- In a callback of a user's channel, with `active` to follow. -/
  | callback (active : List Chan)
  /-- Before `isPendingFunctor_ = true`. -/
  | setPending
  /-- Before `tempFunctors.swap(pendingFunctors)`. -/
  | swap
  /-- In the loop over `tempFunctors`. -/
  | functors
  /-- In a functor of `tempFunctors`. -/
  | functor
  /-- Before `isPendingFunctor_ = false`. -/
  | clearPending
  /-- Behind the loop, before `looping_ = false`. -/
  | leave
  /-- `loop` has returned. -/
  | done
  deriving DecidableEq

/-- Where a thread is in a call. -/
inductive Call
  | idle
  /-- In `queueInLoop`, behind the section under `mutex_`. -/
  | pushed
  /-- In `quit`, behind `quit_ = true`. -/
  | quitStored
  deriving DecidableEq

structure State (F : Type) where
  looping : Bool
  quit : Bool
  isPendingFunctor : Bool
  wakeupFd : Eventfd
  pendingFunctors : List F
  /-- What `doPendingFunctors` has still to run of its batch. -/
  tempFunctors : List F
  /-- The functors that `runInLoop` is running on the loop thread, the innermost first. -/
  nested : List F
  /-- The loop thread's own call of `queueInLoop`. -/
  own : Call
  /-- The calls of the other threads. -/
  callers : ℕ → Call
  pc : Pc

/-- What can be seen of a run. -/
inductive Obs (F : Type)
  /-- A functor enters `pendingFunctors`. -/
  | queued (f : F)
  /-- A call of `queueInLoop` by thread `t`, or by the loop thread, returns. -/
  | returned (t : Option ℕ)
  /-- `doPendingFunctors` takes a new batch. -/
  | batch
  /-- A functor of the batch is called. -/
  | ran (f : F)
  /-- `runInLoop` calls a functor on the loop thread. -/
  | ranDirectly (f : F)
  /-- Another thread sets `quit_`. -/
  | quitCalled (t : ℕ)
  | quitReturned (t : ℕ)
  deriving DecidableEq

/-- The constructor of `EventLoop`. -/
def init (F : Type) : State F where
  looping := false
  quit := false
  isPendingFunctor := false
  wakeupFd := .new
  pendingFunctors := []
  tempFunctors := []
  nested := []
  own := .idle
  callers := fun _ => .idle
  pc := .enter

variable {F : Type}

/-! ### Members -/

/-- `wakeup()` -/
@[simps] def wakeup (s : State F) : State F := { s with wakeupFd := s.wakeupFd.write }

/-- `handleRead()`, the read callback of `wakeupChannel_`. -/
@[simps] def handleRead (s : State F) : State F := { s with wakeupFd := s.wakeupFd.read }

/-- The section of `queueInLoop` under `mutex_`. -/
@[simps] def push (s : State F) (cb : F) : State F :=
  { s with pendingFunctors := s.pendingFunctors ++ [cb] }

/-- Thread `t` gets to the point `c` of a call. -/
@[simps] def setCaller (s : State F) (t : ℕ) (c : Call) : State F :=
  { s with callers := Function.update s.callers t c }

/-- User code runs on the loop thread, and is not inside `queueInLoop`. -/
def InUserCode (s : State F) : Prop :=
  s.own = .idle ∧
    (s.nested ≠ [] ∨ match s.pc with
      | .callback _ | .functor => True
      | _ => False)

instance (s : State F) : Decidable (InUserCode s) := by
  unfold InUserCode
  cases s.nested <;> cases s.pc <;> infer_instance

/-! ### The loop thread -/

/-- The next step of `loop` and `doPendingFunctors`, where it is the program's. -/
def loop (s : State F) : Option (State F × List (Obs F)) :=
  match s.pc with
  | .enter => some ({ s with looping := true, pc := .clearQuit }, [])
  | .clearQuit => some ({ s with quit := false, pc := .test }, [])
  | .test => some ({ s with pc := if s.quit then .leave else .wait }, [])
  | .dispatch (.wakeup :: active) => some ({ handleRead s with pc := .dispatch active }, [])
  | .dispatch (.user _ :: active) => some ({ s with pc := .callback active }, [])
  | .dispatch [] => some ({ s with pc := .setPending }, [])
  | .setPending => some ({ s with isPendingFunctor := true, pc := .swap }, [])
  | .swap =>
    some ({ s with tempFunctors := s.pendingFunctors, pendingFunctors := [], pc := .functors },
      [.batch])
  | .functors =>
    match s.tempFunctors with
    | f :: fs => some ({ s with tempFunctors := fs, pc := .functor }, [.ran f])
    | [] => some ({ s with pc := .clearPending }, [])
  | .clearPending => some ({ s with isPendingFunctor := false, pc := .test }, [])
  | .leave => some ({ s with looping := false, pc := .done }, [])
  | .wait | .callback _ | .functor | .done => none

/-- User code returns: from a functor that `runInLoop` runs, from a callback, or from a functor
of the batch. -/
def leaveUserCode (s : State F) : Option (State F) :=
  if s.own = .idle then
    match s.nested, s.pc with
    | _ :: fs, _ => some { s with nested := fs }
    | [], .callback active => some { s with pc := .dispatch active }
    | [], .functor => some { s with pc := .functors }
    | [], _ => none
  else
    none

/-- The channels a poll reports: users' channels around the loop's own one, which is among them
if the scan of the ready list comes to it and it has something to report. -/
def reported (s : State F) (before after : List ℕ) (scan : Bool) : List Chan :=
  before.map .user ++ (if scan = true ∧ s.wakeupFd.Undelivered then [.wakeup] else []) ++
    after.map .user

/-! ### The system -/

inductive Event (F : Type)
  /-- The loop thread moves inside `loop`. -/
  | loop
  /-- `epoll_wait` returns; without any channel, it has failed with `EINTR`. -/
  | poll (before after : List ℕ) (scan : Bool)
  /-- User code on the loop thread calls `queueInLoop`. -/
  | ownQueue (f : F)
  /-- The test of `isPendingFunctor_` at the end of that call. -/
  | ownWake
  /-- User code on the loop thread calls `runInLoop`. -/
  | ownRun (f : F)
  /-- User code on the loop thread calls `quit`. -/
  | ownQuit
  /-- User code returns. -/
  | ownReturn
  /-- Another thread calls `queueInLoop`, or `runInLoop`, which comes to the same. -/
  | queue (t : ℕ) (f : F)
  /-- Another thread calls `quit`. -/
  | quit (t : ℕ)
  /-- The `wakeup` at the end of either call. -/
  | wake (t : ℕ)
  deriving DecidableEq

def step (s : State F) : Event F → Option (State F × List (Obs F))
  | .loop => if s.nested = [] then loop s else none
  | .poll before after scan =>
    if s.pc = .wait then
      some ({ s with wakeupFd := if scan then s.wakeupFd.poll else s.wakeupFd
                     pc := .dispatch (reported s before after scan) }, [])
    else
      none
  | .ownQueue f =>
    if InUserCode s then some ({ push s f with own := .pushed }, [.queued f]) else none
  | .ownWake =>
    if s.own = .pushed then
      some ({ (if s.isPendingFunctor then wakeup s else s) with own := .idle }, [.returned none])
    else
      none
  | .ownRun f =>
    if InUserCode s then some ({ s with nested := f :: s.nested }, [.ranDirectly f]) else none
  | .ownQuit => if InUserCode s then some ({ s with quit := true }, []) else none
  | .ownReturn => (leaveUserCode s).map fun s => (s, [])
  | .queue t f =>
    if s.callers t = .idle then some (setCaller (push s f) t .pushed, [.queued f]) else none
  | .quit t =>
    if s.callers t = .idle then
      some (setCaller { s with quit := true } t .quitStored, [.quitCalled t])
    else
      none
  | .wake t =>
    match s.callers t with
    | .idle => none
    | .pushed => some (setCaller (wakeup s) t .idle, [.returned (some t)])
    | .quitStored => some (setCaller (wakeup s) t .idle, [.quitReturned t])

/-- One event loop and the threads that use it. -/
def system (F : Type) : System (State F) (Event F) (Obs F) where
  init := init F
  step := step

end ClwServer.EventLoop
