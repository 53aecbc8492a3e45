import ClwServer.Core.Product
import ClwServer.Net.EventLoop.Order
import ClwServer.Net.TcpServer.Rounds

/-!
# A server on its event loops

The server has its queues and batches as lists of its own functors, the event loop has `wakeup`,
`isPendingFunctor_` and whatever else the application gives it. Here the server stands on `n + 1`
event loops: where the code of the server runs on a loop, or hands a functor to it, both make a
step together. The queues are then the same, up to the functors of the application. As in
`Rounds`, a handler returns only from a connection that still lives.
-/

namespace ClwServer.TcpServer

open Cpp
open EventLoop (Chan InUserCode)

variable {n : ℕ}

/-! ### What loops and server do together -/

/-- A functor in `pendingFunctors`. -/
inductive LoopFunctor
  | ofServer (task : Task)
  /-- One of the application. -/
  | ofUser (id : ℕ)
  deriving DecidableEq

def LoopFunctor.task? : LoopFunctor → Option Task
  | .ofServer task => some task
  | .ofUser _ => none

/-- The functors of the server. -/
def tasksOf (functors : List LoopFunctor) : List Task := functors.filterMap LoopFunctor.task?

def Source.chan : Source → Chan
  | .acceptor => .user 0
  | .wakeup => .wakeup
  | .conn c => .user (c + 1)

/-- A step that a loop and the server make together. -/
inductive Port
  /-- `epoll_wait` returns with these channels. -/
  | poll (active : List Chan)
  /-- `handleEvent` of a channel of the server is called. -/
  | enter
  /-- This call returns. -/
  | leave
  /-- The loop handles its own channel. -/
  | wakeup
  /-- `doPendingFunctors` takes a batch. -/
  | swap
  /-- It calls a functor of the server, or has come to the end of the batch. -/
  | run (task : Option Task)
  /-- `runInLoop` calls the functor, on the thread of the loop. -/
  | direct (task : Task)
  /-- The functor enters `pendingFunctors`; it comes from another thread, if one is given. -/
  | queue (thread : Option ℕ) (task : Task)
  deriving DecidableEq

/-- What the server has to do with an event of a loop. -/
def loopPort (s : EventLoop.State LoopFunctor) : EventLoop.Event LoopFunctor → Option Port
  | .poll before after scan => some (.poll (EventLoop.reported s before after scan))
  | .loop =>
    match s.pc, s.tempFunctors with
    | .dispatch (.wakeup :: _), _ => some .wakeup
    | .dispatch (.user _ :: _), _ => some .enter
    | .swap, _ => some .swap
    | .functors, .ofServer task :: _ => some (.run (some task))
    | .functors, [] => some (.run none)
    | _, _ => none
  | .ownReturn =>
    match s.nested, s.pc with
    | [], .callback _ => some .leave
    | _, _ => none
  | .ownRun (.ofServer task) => some (.direct task)
  | .ownQueue (.ofServer task) => some (.queue none task)
  | .queue t (.ofServer task) => some (.queue (some t) task)
  | .ownRun (.ofUser _) | .ownQueue (.ofUser _) | .queue _ (.ofUser _) | .ownWake | .ownQuit | .quit _
  | .wake _ => none

/-- `runInLoop` of the loop `l`, called on the thread of the loop `current`. -/
def handOver (current l : Fin (n + 1)) (task : Task) : Fin (n + 1) × Port :=
  if l = current then (l, .direct task) else (l, .queue (some current.val) task)

/-- What a loop has to do with an event of the server. -/
def Rounds.port (b : Rounds n) : Rounds.Event n → Option (Fin (n + 1) × Port)
  | .epollWait l active => some (l, .poll (active.map Source.chan))
  | .handleEvent l =>
    match b.phase l with
    | .between (.wakeup :: _) => none
    | _ => some (l, .enter)
  | .returns l =>
    match b.phase l with
    | .handling .wakeup _ => some (l, .wakeup)
    | _ => some (l, .leave)
  | .server (.swap l) => some (l, .swap)
  | .server (.next l) =>
    match (b.server.loops l).pc with
    | .inserted c => (b.server.conns c).map fun k => handOver l k.loop (.connectEstablished c)
    | .erased c => (b.server.conns c).map fun k => handOver l k.loop (.connectDestroyed c)
    | .functors => some (l, .run (b.server.loops l).todo.head?)
    | _ => none
  | .server _ => none

/-! ### Threads -/

/-- The loop whose thread makes the step. -/
def Rounds.Event.thread : Rounds.Event n → Option (Fin (n + 1))
  | .epollWait l _ | .handleEvent l | .returns l => some l
  | .server (.accept _) | .server (.create _ _) => some (mainLoop n)
  | .server (.callback l _) | .server (.close l) | .server (.leave l) | .server (.swap l)
  | .server (.next l) => some l
  | .server (.keep _) | .server (.drop _) | .server (.destroy _) => none

/-- The thread `t` is in no call of `queueInLoop` or `quit` of a loop. -/
def Free (loops : Fin (n + 1) → EventLoop.State LoopFunctor) (t : ℕ) : Prop :=
  ∀ i, (loops i).callers t = .idle

instance (loops : Fin (n + 1) → EventLoop.State LoopFunctor) (t : ℕ) : Decidable (Free loops t) :=
  inferInstanceAs (Decidable (∀ i, (loops i).callers t = .idle))

/-- The thread of the loop `l` is in the code of the server, and in no call from there. -/
def AtServer (loops : Fin (n + 1) → EventLoop.State LoopFunctor) (l : Fin (n + 1)) : Prop :=
  Free loops l.val ∧ (loops l).own = .idle ∧ (loops l).nested = []

instance (loops : Fin (n + 1) → EventLoop.State LoopFunctor) (l : Fin (n + 1)) :
    Decidable (AtServer loops l) :=
  inferInstanceAs (Decidable (_ ∧ _ ∧ _))

/-- The thread that makes the step of the loop `l` is not busy elsewhere. Threads of other loops
come from user code. -/
def Available (loops : Fin (n + 1) → EventLoop.State LoopFunctor) (l : Fin (n + 1)) :
    EventLoop.Event LoopFunctor → Prop
  | .wake _ => True
  | .queue t _ | .quit t => Free loops t ∧ ∀ i, i.val = t → i ≠ l ∧ InUserCode (loops i)
  | .loop | .poll .. | .ownQueue _ | .ownWake | .ownRun _ | .ownQuit | .ownReturn => Free loops l

instance (loops : Fin (n + 1) → EventLoop.State LoopFunctor) (l : Fin (n + 1))
    (e : EventLoop.Event LoopFunctor) : Decidable (Available loops l e) := by
  cases e <;> unfold Available <;> infer_instance

/-- The steps that the rounds of the server and its loops may make together. -/
def Together (b : Rounds n) (loops : Fin (n + 1) → EventLoop.State LoopFunctor)
    (e : Option (Rounds.Event n)) (d : Option (Fin (n + 1) × EventLoop.Event LoopFunctor)) : Prop :=
  (e.bind b.port = d.bind fun x => (loopPort (loops x.1) x.2).map (x.1, ·)) ∧
    (e.isSome → d.isSome → (e.bind b.port).isSome) ∧
    (∀ l ∈ e.bind Rounds.Event.thread, AtServer loops l) ∧ ∀ x ∈ d, Available loops x.1 x.2

instance (b : Rounds n) (loops : Fin (n + 1) → EventLoop.State LoopFunctor)
    (e : Option (Rounds.Event n)) (d : Option (Fin (n + 1) × EventLoop.Event LoopFunctor)) :
    Decidable (Together b loops e d) :=
  inferInstanceAs (Decidable (_ ∧ _ ∧ _ ∧ _))

/-- Behind a fault nothing is enabled. -/
def Jointly (r : Except Fault (Rounds n)) (loops : Fin (n + 1) → EventLoop.State LoopFunctor)
    (e : Option (Rounds.Event n)) (d : Option (Fin (n + 1) × EventLoop.Event LoopFunctor)) : Prop :=
  match r with
  | .ok b => Together b loops e d
  | .error _ => False

instance (r : Except Fault (Rounds n)) (loops : Fin (n + 1) → EventLoop.State LoopFunctor)
    (e : Option (Rounds.Event n)) (d : Option (Fin (n + 1) × EventLoop.Event LoopFunctor)) :
    Decidable (Jointly r loops e d) := by
  cases r <;> unfold Jointly <;> infer_instance

/-- A server on its event loops. -/
def onLoops (n : ℕ) :
    System (Except Fault (Rounds n) × (Fin (n + 1) → EventLoop.State LoopFunctor))
      (Option (Rounds.Event n) × Option (Fin (n + 1) × EventLoop.Event LoopFunctor))
      (Obs ⊕ Fin (n + 1) × EventLoop.Obs LoopFunctor) :=
  .product (Rounds.system n) (.family (Fin (n + 1)) (EventLoop.system LoopFunctor)) Jointly

end ClwServer.TcpServer
