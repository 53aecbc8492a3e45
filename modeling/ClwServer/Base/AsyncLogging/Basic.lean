import Mathlib.Data.List.Induction
import ClwServer.Core.System
import ClwServer.Base.FixedBuffer

/-!
# The asynchronous log

`AsyncLogging.cc`: any number of front-end threads call `append`, one backend thread runs
`threadFunc`, and one `~AsyncLogging` may clear `running_` at any time. Every critical section
under `mutex_` is one step; between two of them the threads interleave freely, also while the
backend sleeps in `cond_.timedwait`, which gives the mutex up. Since `timedwait` may end by a
signal, by its timeout or for no reason, a signal changes nothing that can be reached, and is
left out.
-/

namespace ClwServer.AsyncLogging

open Cpp

abbrev Buffer := FixedBuffer kLargeBuffer

/-- `std::unique_ptr<Buffer>` -/
abbrev BufferPtr := Option Buffer

/-- The bytes a buffer pointer owns. -/
def contents (p : BufferPtr) : List Byte := p.elim [] (·.data)

@[simp] lemma contents_some (b : Buffer) : contents (some b) = b.data := rfl

/-- Where the backend thread is in `threadFunc`. -/
inductive Pc
  /-- `start` has not created the thread. -/
  | notStarted
  /-- Before `newBuffer1` and `newBuffer2` are made. -/
  | entry
  /-- At `while (running_)`. -/
  | head
  /-- About to lock `mutex_`. -/
  | lock
  /-- In `cond_.timedwait`, without the mutex. -/
  | waiting
  /-- At `if (buffersToWrite.size() > 25)`. -/
  | drop
  /-- In the loop that writes, before its `i`-th buffer. -/
  | write (i : ℕ)
  /-- At `if (buffersToWrite.size() > 2)`. -/
  | resize
  /-- At `if (!newBuffer1)`. -/
  | refill1
  /-- At `if (!newBuffer2)`. -/
  | refill2
  /-- At `buffersToWrite.clear()`. -/
  | flush
  /-- At the `output.flush()` behind the loop. -/
  | lastFlush
  /-- `threadFunc` has returned. -/
  | done
  deriving DecidableEq

/-- The members of `AsyncLogging`, the locals of `threadFunc` and its program counter. -/
structure State where
  running : Bool
  currentBuffer : BufferPtr
  nextBuffer : BufferPtr
  buffers : List BufferPtr
  newBuffer1 : BufferPtr
  newBuffer2 : BufferPtr
  buffersToWrite : List BufferPtr
  pc : Pc
  /-- `~AsyncLogging` has begun. -/
  closing : Bool
  deriving DecidableEq

/-- What can be seen of a run: the calls of `append` in the order of the lock, and what the
backend does with its buffers. -/
inductive Obs
  | appended (tid : ℕ) (logline : List Byte)
  /-- `output.append(buf, ..)` of the drop section. -/
  | notice (text : List Byte)
  /-- The buffers that `buffersToWrite.erase` destroys. -/
  | erased (batch : List BufferPtr)
  /-- `output.append(buffer->data(), buffer->length())`. -/
  | written (data : List Byte)
  | flushed
  deriving DecidableEq

/-- The constructor of `AsyncLogging`. -/
def init : State where
  running := false
  currentBuffer := some .empty
  nextBuffer := some .empty
  buffers := []
  newBuffer1 := none
  newBuffer2 := none
  buffersToWrite := []
  pc := .notStarted
  closing := false

/-! ### The front end -/

/-- `if (nextBuffer_)`: the spare buffer becomes the current one, or else a new one. -/
def takeNext (s : State) : State :=
  match s.nextBuffer with
  | some next => { s with currentBuffer := some next, nextBuffer := none }
  | none => { s with currentBuffer := some .empty }

/-- `append(logline, len)`, for the `len` bytes at `logline`. -/
def append (s : State) (logline : List Byte) : Except Fault State := do
  let cur ← deref s.currentBuffer
  if logline.length < cur.avail then
    let cur ← cur.append logline
    .ok { s with currentBuffer := some cur }
  else
    let s := takeNext { s with buffers := s.buffers ++ [s.currentBuffer] }
    let cur ← deref s.currentBuffer
    let cur ← cur.append logline
    .ok { s with currentBuffer := some cur }

/-! ### The backend -/

/-- The critical section of a round, from the wakeup on. -/
def swap (s : State) : State :=
  let s := { s with buffers := s.buffers ++ [s.currentBuffer] }
  let s := { s with currentBuffer := s.newBuffer1, newBuffer1 := none }
  let s := { s with buffersToWrite := s.buffers, buffers := s.buffersToWrite }
  match s.nextBuffer with
  | some _ => s
  | none => { s with nextBuffer := s.newBuffer2, newBuffer2 := none }

@[simp] lemma swap_running (s : State) : (swap s).running = s.running := by
  simp only [swap]
  split <;> rfl

@[simp] lemma swap_closing (s : State) : (swap s).closing = s.closing := by
  simp only [swap]
  split <;> rfl

/-- The notice for `n` erased buffers, as `snprintf` leaves it in `char buf[256]`. -/
def dropNotice (n : ℕ) : List Byte :=
  (("Droped Log messages at  " ++ toString n ++ " large buffers\n").toUTF8.toList).take 255

/-- The drop section. -/
def drop (s : State) : State × List Obs :=
  if 25 < s.buffersToWrite.length then
    ({ s with buffersToWrite := s.buffersToWrite.take 2 },
      [.notice (dropNotice (s.buffersToWrite.length - 2)), .erased (s.buffersToWrite.drop 2)])
  else
    (s, [])

/-- Only a batch of more than 25 buffers is cut. -/
lemma drop_cases (s : State) :
    25 < s.buffersToWrite.length ∧
      drop s = ({ s with buffersToWrite := s.buffersToWrite.take 2 },
        [.notice (dropNotice (s.buffersToWrite.length - 2)), .erased (s.buffersToWrite.drop 2)]) ∨
    drop s = (s, []) := by
  by_cases hlen : 25 < s.buffersToWrite.length
  · exact .inl ⟨hlen, if_pos hlen⟩
  · exact .inr (if_neg hlen)

/-- `if (!newBuffer)`: a buffer that was written is emptied and used again. -/
def refill (newBuffer : BufferPtr) (buffersToWrite : List BufferPtr) :
    Except Fault (BufferPtr × List BufferPtr) :=
  match newBuffer with
  | some b => .ok (some b, buffersToWrite)
  | none => do
    let (p, rest) ← popBack buffersToWrite
    let b ← deref p
    .ok (some b.reset, rest)

/-- The next step of `threadFunc`, except that only `wake` ends a `timedwait`. -/
def threadFunc (s : State) : Option (Except Fault (State × List Obs)) :=
  match s.pc with
  | .notStarted | .waiting | .done => none
  | .entry =>
    some (.ok ({ s with newBuffer1 := some .empty, newBuffer2 := some .empty,
                        buffersToWrite := [], pc := .head }, []))
  | .head => some (.ok ({ s with pc := if s.running then .lock else .lastFlush }, []))
  | .lock =>
    if s.buffers.isEmpty then
      some (.ok ({ s with pc := .waiting }, []))
    else
      some (.ok ({ swap s with pc := .drop }, []))
  | .drop => some (.ok ({ (drop s).1 with pc := .write 0 }, (drop s).2))
  | .write i =>
    match s.buffersToWrite[i]? with
    | some buffer =>
      some ((deref buffer).map fun b => ({ s with pc := .write (i + 1) }, [.written b.data]))
    | none => some (.ok ({ s with pc := .resize }, []))
  | .resize =>
    some (.ok ({ s with buffersToWrite := if 2 < s.buffersToWrite.length
                                          then s.buffersToWrite.take 2 else s.buffersToWrite
                        pc := .refill1 }, []))
  | .refill1 =>
    some ((refill s.newBuffer1 s.buffersToWrite).map fun r =>
      ({ s with newBuffer1 := r.1, buffersToWrite := r.2, pc := .refill2 }, []))
  | .refill2 =>
    some ((refill s.newBuffer2 s.buffersToWrite).map fun r =>
      ({ s with newBuffer2 := r.1, buffersToWrite := r.2, pc := .flush }, []))
  | .flush => some (.ok ({ s with buffersToWrite := [], pc := .head }, [.flushed]))
  | .lastFlush => some (.ok ({ s with pc := .done }, [.flushed]))

/-! ### The system -/

inductive Event
  /-- A front-end thread calls `append`, with a message shorter than a buffer. -/
  | append (tid : ℕ) (logline : List Byte)
  /-- `start` sets `running_` and creates the backend thread. -/
  | start
  /-- The backend moves. -/
  | backend
  /-- `cond_.timedwait` returns, with the mutex. -/
  | wake
  /-- `~AsyncLogging` begins: it clears `running_`, without the mutex. -/
  | clear
  deriving DecidableEq

/-- What an event does, if its thread is at that point. -/
def exec (s : State) : Event → Option (Except Fault (State × List Obs))
  | .append tid logline =>
    if logline.length < kLargeBuffer then
      some ((append s logline).map fun s => (s, [.appended tid logline]))
    else
      none
  | .start =>
    if s.pc = .notStarted ∧ s.closing = false then
      some (.ok ({ s with running := true, pc := .entry }, []))
    else
      none
  | .backend => threadFunc s
  | .wake => if s.pc = .waiting then some (.ok ({ swap s with pc := .drop }, [])) else none
  | .clear =>
    if s.closing = false then
      some (.ok ({ s with running := false, closing := true }, []))
    else
      none

/-- The front end, the backend and the destructor of one `AsyncLogging`. -/
def system : System State Event Obs where
  init := init
  step s e := (exec s e).bind Except.toOption

lemma step_eq_some {s t : State} {e : Event} {o : List Obs} :
    system.step s e = some (t, o) ↔ exec s e = some (.ok (t, o)) := by
  simp only [system]
  rcases exec s e with _ | _ | _ <;> simp [Except.toOption]

end ClwServer.AsyncLogging
