import ClwServer.Core.System
import Mathlib.Data.List.AList
import Mathlib.Data.Finset.Insert
import Mathlib.Data.Finset.Erase

/-!
# The connections of a server

`TcpServer::newConnection` and `TcpServer::removeConnection` with `n` IO loops next to the main
loop, which has number 0. Each operation on `ConnectionMap` is one step. `newConnection` is cut
behind the insertion of the new connection, which nobody can see before, and behind its
`runInLoop`; `removeConnection` is cut before the `erase`, behind it, and behind its `runInLoop`.

A connection exists as long as a `TcpConnectionPtr` to it does: in the map, in a functor that is
queued or in a batch that has not ended, in a local variable of `newConnection`, in the temporary
`handleClose` makes, or with the application. Its destructor runs in a step of its own, and closes
the descriptor.

The system calls succeed: `accept4` has a descriptor, so that there is no connection on -1 as
`Acceptor::handleRead` makes it otherwise, and `epoll_ctl` adds the channel. The server is not
destroyed: `~TcpServer`, which hands `connectDestroyed` of each connection in the map to its loop,
is left out. What a callback does with a connection that was destroyed under it is the subject of
`TcpConnection.Lifetime`.
-/

namespace ClwServer.TcpServer

/-- A `TcpConnection`, by the order in which the allocator hands them out. -/
abbrev ConnId := ℕ

/-- A functor of a loop. -/
inductive Task
  | connectEstablished (c : ConnId)
  | connectDestroyed (c : ConnId)
  deriving DecidableEq

/-- The connection whose pointer the functor is bound to. -/
def Task.conn : Task → ConnId
  | .connectEstablished c | .connectDestroyed c => c

/-- Where the thread of a loop is. -/
inductive Pc
  /-- Outside of the code below. -/
  | idle
  /-- In `Acceptor::handleRead`, with a new descriptor. -/
  | accepted (fd : ℕ)
  /-- In `newConnection`, behind `ConnectionMap[connfd] = connPtr`. -/
  | inserted (c : ConnId)
  /-- In `newConnection`, behind `runInLoop`. -/
  | returning (c : ConnId)
  /-- In a callback of the channel of `c`. -/
  | callback (c : ConnId)
  /-- In `handleClose` in that callback, before `ConnectionMap.erase`. -/
  | closing (c : ConnId)
  /-- In `removeConnection`, behind `ConnectionMap.erase`. -/
  | erased (c : ConnId)
  /-- In `handleClose`, behind `runInLoop`. -/
  | closed (c : ConnId)
  /-- In `doPendingFunctors`, behind the swap. -/
  | functors
  deriving DecidableEq

/-- The connection a local variable or a temporary of the thread points to. -/
def Pc.ref : Pc → Option ConnId
  | .inserted c | .returning c | .closing c | .erased c | .closed c => some c
  | .idle | .accepted _ | .callback _ | .functors => none

/-- The connection whose channel the thread handles. -/
def Pc.handled : Pc → Option ConnId
  | .callback c | .closing c | .erased c | .closed c => some c
  | .idle | .accepted _ | .inserted _ | .returning _ | .functors => none

structure Loop where
  pc : Pc
  pendingFunctors : List Task
  /-- The functors of the batch that have run; they are released with the batch. -/
  ran : List Task
  /-- The functors of the batch that have not. -/
  todo : List Task

def Loop.tasks (L : Loop) : List Task := L.pendingFunctors ++ L.ran ++ L.todo

/-- The connections the loop's thread and its queue point to. -/
def Loop.refs (L : Loop) : List ConnId := L.pc.ref.toList ++ L.tasks.map Task.conn

structure Conn (n : ℕ) where
  fd : ℕ
  loop : Fin (n + 1)
  /-- The channel is in the interest list of the loop. -/
  registered : Bool
  /-- The copies of the pointer the application keeps. -/
  kept : ℕ
  /-- The destructor has not run. -/
  alive : Bool

structure State (n : ℕ) where
  conns : ConnId → Option (Conn n)
  connectionMap : AList fun _ : ℕ => ConnId
  /-- The open descriptors of connections. -/
  openFds : Finset ℕ
  loops : Fin (n + 1) → Loop

inductive Obs
  | created (c : ConnId)
  /-- `removeConnection` of `c` erases the entry of `c->fd()`, where it finds `entry`. -/
  | removed (c : ConnId) (entry : Option ConnId)
  /-- `connectEstablished` of `c` runs. -/
  | established (c : ConnId)
  /-- `connectDestroyed` of `c` runs. -/
  | disconnected (c : ConnId)
  deriving DecidableEq

variable {n : ℕ}

def init (n : ℕ) : State n where
  conns := fun _ => none
  connectionMap := ∅
  openFds := ∅
  loops := fun _ => ⟨.idle, [], [], []⟩

/-! ### References -/

/-- The copies of the pointer to `c` the application keeps. -/
def kept (s : State n) (c : ConnId) : ℕ := ((s.conns c).map Conn.kept).getD 0

/-- Somebody holds a pointer to `c`. -/
def Held (s : State n) (c : ConnId) : Prop :=
  (∃ e ∈ s.connectionMap.entries, e.2 = c) ∨ (∃ l, c ∈ (s.loops l).refs) ∨ 0 < kept s c

instance (s : State n) (c : ConnId) : Decidable (Held s c) :=
  inferInstanceAs (Decidable (_ ∨ _ ∨ _))

/-! ### Members -/

def setLoop (s : State n) (l : Fin (n + 1)) (L : Loop) : State n :=
  { s with loops := Function.update s.loops l L }

def setPc (s : State n) (l : Fin (n + 1)) (pc : Pc) : State n :=
  setLoop s l { s.loops l with pc := pc }

def updateConn (s : State n) (c : ConnId) (f : Conn n → Conn n) : State n :=
  { s with conns := Function.update s.conns c ((s.conns c).map f) }

/-- `connectEstablished` and `connectDestroyed`, on the loop of the connection. -/
def runTask (s : State n) : Task → State n × List Obs
  | .connectEstablished c =>
    (updateConn s c fun k => { k with registered := true }, [.established c])
  | .connectDestroyed c =>
    (updateConn s c fun k => { k with registered := false }, [.disconnected c])

/-- `queueInLoop` -/
def queueInLoop (s : State n) (l : Fin (n + 1)) (task : Task) : State n :=
  setLoop s l { s.loops l with pendingFunctors := (s.loops l).pendingFunctors ++ [task] }

/-- `runInLoop` of the loop `l`, called on the thread of the loop `current`. -/
def runInLoop (s : State n) (current l : Fin (n + 1)) (task : Task) : State n × List Obs :=
  if l = current then runTask s task else (queueInLoop s l task, [])

/-- On its own thread a loop runs the functor at once, and otherwise it queues it. -/
lemma runInLoop_cases (s : State n) (current l : Fin (n + 1)) (task : Task) :
    runInLoop s current l task = runTask s task ∨
      runInLoop s current l task = (queueInLoop s l task, []) := by
  by_cases hl : l = current
  · exact .inl (if_pos hl)
  · exact .inr (if_neg hl)

/-! ### The system -/

inductive Event (n : ℕ)
  /-- `accept4` returns a descriptor that is not open. -/
  | accept (fd : ℕ)
  /-- `newConnection` makes the connection `c` for the loop `l`, and inserts it. -/
  | create (c : ConnId) (l : Fin (n + 1))
  /-- The loop `l` calls a callback of the channel of `c`. -/
  | callback (l : Fin (n + 1)) (c : ConnId)
  /-- The callback of the loop `l` calls `handleClose`. -/
  | close (l : Fin (n + 1))
  /-- The callback returns, also where the connection was destroyed under it. -/
  | leave (l : Fin (n + 1))
  /-- `doPendingFunctors` takes a batch. -/
  | swap (l : Fin (n + 1))
  /-- The thread of the loop `l` moves in `newConnection`, in `handleClose` or in
  `doPendingFunctors`. -/
  | next (l : Fin (n + 1))
  /-- The application copies a pointer: its own, or the one a callback gives it. -/
  | keep (c : ConnId)
  /-- The application drops one of its copies. -/
  | drop (c : ConnId)
  /-- The destructor of `c` runs. -/
  | destroy (c : ConnId)
  deriving DecidableEq

def next (s : State n) (l : Fin (n + 1)) : Option (State n × List Obs) :=
  match (s.loops l).pc with
  | .inserted c =>
    (s.conns c).map fun k =>
      let (t, o) := runInLoop s l k.loop (.connectEstablished c)
      (setPc t l (.returning c), o)
  | .returning _ => some (setPc s l .idle, [])
  | .closing c =>
    (s.conns c).map fun k =>
      ({ setPc s l (.erased c) with connectionMap := s.connectionMap.erase k.fd },
        [.removed c (s.connectionMap.lookup k.fd)])
  | .erased c =>
    (s.conns c).map fun k =>
      let (t, o) := runInLoop s l k.loop (.connectDestroyed c)
      (setPc t l (.closed c), o)
  | .closed c => some (setPc s l (.callback c), [])
  | .functors =>
    match (s.loops l).todo with
    | task :: todo =>
      some (runTask (setLoop s l { s.loops l with ran := (s.loops l).ran ++ [task], todo := todo })
        task)
    | [] => some (setLoop s l { s.loops l with pc := .idle, ran := [] }, [])
  | .idle | .accepted _ | .callback _ => none

def step (s : State n) : Event n → Option (State n × List Obs)
  | .accept fd =>
    if (s.loops 0).pc = .idle ∧ fd ∉ s.openFds then
      some ({ setPc s 0 (.accepted fd) with openFds := insert fd s.openFds }, [])
    else
      none
  | .create c l =>
    match (s.loops 0).pc, s.conns c with
    | .accepted fd, none =>
      some ({ setPc s 0 (.inserted c) with
          conns := Function.update s.conns c
            (some { fd := fd, loop := l, registered := false, kept := 0, alive := true })
          connectionMap := s.connectionMap.insert fd c }, [.created c])
    | _, _ => none
  | .callback l c =>
    match s.conns c with
    | some k =>
      if (s.loops l).pc = .idle ∧ k.loop = l ∧ k.registered then
        some (setPc s l (.callback c), [])
      else
        none
    | none => none
  | .close l =>
    match (s.loops l).pc with
    | .callback c => if Held s c then some (setPc s l (.closing c), []) else none
    | _ => none
  | .leave l =>
    match (s.loops l).pc with
    | .callback _ => some (setPc s l .idle, [])
    | _ => none
  | .swap l =>
    if (s.loops l).pc = .idle then
      some (setLoop s l ⟨.functors, [], [], (s.loops l).pendingFunctors⟩, [])
    else
      none
  | .next l => next s l
  | .keep c =>
    if Held s c then some (updateConn s c fun k => { k with kept := k.kept + 1 }, []) else none
  | .drop c =>
    if 0 < kept s c then
      some (updateConn s c fun k => { k with kept := k.kept - 1 }, [])
    else
      none
  | .destroy c =>
    match s.conns c with
    | some k =>
      if k.alive = true ∧ ¬Held s c then
        some ({ updateConn s c (fun k => { k with alive := false }) with
          openFds := s.openFds.erase k.fd }, [])
      else
        none
    | none => none

/-- A server, its loops, the application and the kernel's table of descriptors. -/
def system (n : ℕ) : System (State n) (Event n) Obs where
  init := init n
  step := step

end ClwServer.TcpServer
