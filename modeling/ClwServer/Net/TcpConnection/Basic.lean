import ClwServer.Net.Channel

/-!
# Connections

The callbacks of a `TcpConnection` as its own IO loop runs them (`TcpConnection.cc`), together
with `TcpServer::removeConnection`, which `CloseCallback_` is bound to. A connection lives as long
as somebody holds a `TcpConnectionPtr` to it: the entry of `ConnectionMap`, or one of a number of
copies. The temporaries of `shared_from_this` and `std::bind` are gone when the call that made
them returns.
-/

namespace ClwServer.TcpConnection

open Cpp Posix

/-- What one `read` into `buf[65536]` puts there. -/
structure Chunk where
  bytes : List Byte
  pos : bytes ≠ []
  fits : bytes.length ≤ 65536
  deriving DecidableEq

/-- An outcome of `read`. -/
inductive ReadOutcome
  /-- A positive count; when `MessageCallback_` has returned, `keeps` copies are held. -/
  | data (chunk : Chunk) (keeps : ℕ)
  | eof
  /-- The result is -1. -/
  | failed (e : Errno)
  deriving DecidableEq

structure State where
  /-- `ConnectionMap` holds the connection. -/
  inMap : Bool
  /-- The copies of the pointer outside of the map. -/
  copies : ℕ
  /-- The channel is in the interest list of epoll. -/
  registered : Bool
  /-- The arguments of `MessageCallback_`, the first one first. -/
  messages : List (List Byte)
  /-- The number of calls of `CloseCallback_`. -/
  closeCalls : ℕ

/-- The connection is not destroyed. -/
def Alive (s : State) : Prop := s.inMap = true ∨ 0 < s.copies

instance (s : State) : Decidable (Alive s) := inferInstanceAs (Decidable (_ ∨ _))

/-- An access to a member of the connection, or of its channel. -/
def touch (s : State) : Except Fault Unit := if Alive s then .ok () else .error .destroyed

/-! ### Members -/

/-- `connectDestroyed()` -/
def connectDestroyed (s : State) : State := { s with registered := false }

/-- `TcpServer::removeConnection`, on the loop of the connection, where `runInLoop` runs
`connectDestroyed` at once. -/
def removeConnection (s : State) : State := connectDestroyed { s with inMap := false }

/-- `MessageCallback_` -/
def messageCallback (s : State) (chunk : Chunk) (keeps : ℕ) : State :=
  { s with messages := s.messages ++ [chunk.bytes], copies := keeps }

/-- `handleClose()` -/
def handleClose (s : State) : Except Fault State := do
  touch s
  .ok (removeConnection { s with closeCalls := s.closeCalls + 1 })

/-- `handleError()`, which only reads members, for the log. -/
def handleError (s : State) : Except Fault State := do
  touch s
  .ok s

/-- The part of a turn of `handleRead` behind the `read`. -/
def turn (s : State) : ReadOutcome → Except Fault (Turn State)
  | .data chunk keeps => do
    touch s
    .ok (.again (messageCallback s chunk keeps))
  | .eof => do
    let s ← handleClose s
    .ok (.again s)
  | .failed e =>
    if e = EAGAIN then
      .ok (.leave s)
    else if e = EINTR then
      .ok (.again s)
    else do
      let s ← handleError s
      .ok (.again s)

/-- The loop of `handleRead`; each turn begins with `channel_->fd()`. -/
def loop : InputLoop State ReadOutcome Fault where
  head := touch
  body := turn

def handleRead : Channel.Callback State ReadOutcome := loop.run

/-- The callbacks the constructor gives to `channel_`. -/
def callbacks : Channel.Callbacks State ReadOutcome where
  readcallback_ := some handleRead
  writecallback_ := none
  errorcallback_ := some fun s os => (handleError s).map (.left · os)
  closecallback_ := some fun s os => (handleClose s).map (.left · os)

/-- The channel of the connection gets the events `revents`. -/
def handleEvent (revents : Events) : Channel.Callback State ReadOutcome :=
  Channel.handleEvent touch callbacks revents

/-! ### One turn -/

variable {s : State} {o : ReadOutcome}

/-- The state behind a turn that goes on. -/
def after (s : State) : ReadOutcome → State
  | .data chunk keeps => messageCallback s chunk keeps
  | .eof => removeConnection { s with closeCalls := s.closeCalls + 1 }
  | .failed _ => s

@[simp] lemma loop_head : loop.head = touch := rfl

@[simp] lemma loop_body : loop.body = turn := rfl

lemma touch_of_alive (h : Alive s) : touch s = .ok () := if_pos h

lemma touch_of_not_alive (h : ¬Alive s) : touch s = .error .destroyed := if_neg h

lemma turn_eagain : turn s (.failed EAGAIN) = .ok (.leave s) := by
  rw [turn, if_pos rfl]

lemma turn_of_ne (h : Alive s) (ho : o ≠ .failed EAGAIN) :
    turn s o = .ok (.again (after s o)) := by
  cases o with
  | data chunk keeps =>
    rw [turn, touch_of_alive h]
    rfl
  | eof =>
    rw [turn, handleClose, touch_of_alive h]
    rfl
  | failed e =>
    have he : e ≠ EAGAIN := by
      rintro rfl
      exact ho rfl
    rw [turn, if_neg he]
    by_cases hintr : e = EINTR
    · rw [if_pos hintr]
      rfl
    · rw [if_neg hintr, handleError, touch_of_alive h]
      rfl

end ClwServer.TcpConnection
