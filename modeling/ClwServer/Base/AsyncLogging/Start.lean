import ClwServer.Base.CountDownLatch
import ClwServer.Core.Handshake

/-!
# Starting the asynchronous log

`AsyncLogging::start` creates the backend thread, whatever `Thread::start` returns, and waits on
`latch_` until `threadFunc` counts it down.
-/

namespace ClwServer.AsyncLogging

/-- `start`, up to the end of `latch_.wait()`, and `threadFunc`, whose first call is
`latch_.countDown()`. The rest of `threadFunc` leaves the latch alone. -/
def start : Handshake CountDownLatch Empty Empty Unit where
  init := ⟨1⟩
  create latch := latch
  prepare latch := latch
  set := CountDownLatch.countDown
  notifies := CountDownLatch.broadcasts
  ready latch := !latch.waits
  value _ := ()
  leave latch := latch
  run _ e := nomatch e

/-- The latch of a log is at zero behind the call of `countDown`. -/
lemma start_keeps : start.Keeps fun latch => latch = ⟨0⟩ where
  init := rfl
  create := rfl
  prepare := rfl
  notifies := rfl
  published := rfl
  ready h := h ▸ rfl
  run {_ _ e _} := e.elim

end ClwServer.AsyncLogging
