import ClwServer.Core.InputLoop
import ClwServer.Core.Posix
import ClwServer.Core.Cpp

/-!
# Channels

`Channel::handleEvent` of `Channel.cc`. The callbacks act on the object that owns the channel, and
may destroy it, and the channel with it; `touch` is the access to a member of the channel, which
has no meaning from then on.
-/

namespace ClwServer.Channel

open Cpp Posix

variable {σ ι : Type}

/-- A piece of code on the owner's state that may read inputs. -/
abbrev Callback (σ ι : Type) := σ → List ι → Except Fault (Progress σ ι)

/-- The callbacks of a channel, where they are set. -/
structure Callbacks (σ ι : Type) where
  readcallback_ : Option (Callback σ ι)
  writecallback_ : Option (Callback σ ι)
  errorcallback_ : Option (Callback σ ι)
  closecallback_ : Option (Callback σ ι)

/-- Nothing is done, and nothing is read. -/
def skip : Callback σ ι := fun s is => .ok (.left s is)

/-- `if (cb) cb();` -/
def call (cb : Option (Callback σ ι)) : Callback σ ι := cb.getD skip

/-- `if (b) cb();` -/
def callIf (b : Prop) [Decidable b] (cb : Callback σ ι) : Callback σ ι := if b then cb else skip

/-- Run the rest of the function, unless `first` still waits for an input. -/
def seq (first next : Callback σ ι) : Callback σ ι := fun s is => do
  let p ← first s is
  p.andThen next

/-- The peer has closed the connection, and nothing is left to read. -/
def HungUp (revents : Events) : Prop := revents.Has EPOLLHUP ∧ ¬revents.Has EPOLLIN

instance (revents : Events) : Decidable (HungUp revents) := inferInstanceAs (Decidable (_ ∧ _))

variable (touch : σ → Except Fault Unit) (cbs : Callbacks σ ι) (revents : Events)

/-- An access to `revents_`. After a callback this is the place where a destroyed channel is
found. -/
def reventsRead : Callback σ ι := fun s is => do
  touch s
  .ok (.left s is)

/-- `handleEvent` from the test of `EPOLLERR` on. -/
def handleOthers : Callback σ ι :=
  seq (reventsRead touch) <|
  if revents.Has EPOLLERR then
    call cbs.errorcallback_
  else
    seq (callIf (revents.Has (EPOLLIN ||| EPOLLPRI ||| EPOLLRDHUP)) (call cbs.readcallback_)) <|
    seq (reventsRead touch) <|
    callIf (revents.Has EPOLLOUT) (call cbs.writecallback_)

/-- `handleEvent()`, with the value of `revents_`. -/
def handleEvent : Callback σ ι :=
  seq (reventsRead touch) <|
  seq (callIf (HungUp revents) (call cbs.closecallback_)) <|
  handleOthers touch cbs revents

/-! ### Sequences of callbacks -/

variable {touch} {first next : Callback σ ι} {s t : σ} {is rest : List ι} {e : Fault}

lemma seq_left (h : first s is = .ok (.left t rest)) : seq first next s is = next t rest := by
  simp only [seq, h, ok_bind, Progress.andThen_left]

lemma seq_inside (h : first s is = .ok (.inside t)) :
    seq first next s is = .ok (.inside t) := by
  simp only [seq, h, ok_bind, Progress.andThen_inside]

lemma seq_error (h : first s is = .error e) : seq first next s is = .error e := by
  simp only [seq, h]
  rfl

lemma seq_reventsRead (h : touch s = .ok ()) : seq (reventsRead touch) next s is = next s is := by
  apply seq_left
  rw [reventsRead, h]
  rfl

lemma seq_reventsRead_error (h : touch s = .error e) :
    seq (reventsRead touch) next s is = .error e := by
  apply seq_error
  rw [reventsRead, h]
  rfl

end ClwServer.Channel
