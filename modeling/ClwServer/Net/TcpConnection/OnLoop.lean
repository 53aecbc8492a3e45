import ClwServer.Net.EventLoop.Watch
import ClwServer.Net.TcpConnection.Lifetime

/-!
# A connection and its loop

A connection on its IO loop, from `TcpServer::newConnection` on. Its `connectEstablished` goes to
the loop by `runInLoop`, and registers the channel under edge-triggered epoll. From then on every
poll may report any events, and every `read` have any outcome.
-/

namespace ClwServer.TcpConnection

open Cpp Posix
open EventLoop (Phase Port Device)

/-! ### The course of `handleEvent` -/

variable {s u : State} {o : ReadOutcome} {os : List ReadOutcome} {revents : Events}
  {r : Progress State ReadOutcome}

/-- `handleEvent` comes to `handleRead`. -/
def Reads (revents : Events) : Prop :=
  ¬revents.Has EPOLLERR ∧ revents.Has (EPOLLIN ||| EPOLLPRI ||| EPOLLRDHUP)

instance (revents : Events) : Decidable (Reads revents) := inferInstanceAs (Decidable (_ ∧ _))

/-- A call of `handleEvent` that is defined so far: it has acted on a hang-up, and has returned, or
is in `handleRead`. -/
lemma handleEvent_cases (h : handleEvent revents s os = .ok r) :
    ¬Reads revents ∧ r = .left (afterHangUp revents s) os ∨ Reads revents ∧
      Channel.seq handleRead (handleWriteEvent revents) (afterHangUp revents s) os = .ok r := by
  have hs : Alive s := by
    by_contra hdead
    rw [handleEvent_of_not_alive revents hdead] at h
    cases h
  rw [handleEvent_of_alive revents hs] at h
  have ht : Alive (afterHangUp revents s) := by
    by_contra hdead
    rw [handleOthers_of_not_alive revents hdead] at h
    cases h
  rw [handleOthers_of_alive revents ht] at h
  split at h
  · exact .inr ⟨‹_›, h⟩
  · cases h
    exact .inl ⟨‹_›, rfl⟩

/-- What `handleRead` waits for, `handleEvent` does. -/
lemma handleEvent_of_reads (hreads : Reads revents) (h : handleEvent revents s os = .ok r) :
    handleRead (afterHangUp revents s) os = .ok r := by
  obtain ⟨-, hread⟩ := (handleEvent_cases h).resolve_left fun hleft => hleft.1 hreads
  cases hr : handleRead (afterHangUp revents s) os with
  | error e =>
    rw [Channel.seq_error hr] at hread
    cases hread
  | ok p =>
    cases p with
    | inside t => rwa [Channel.seq_inside hr] at hread
    | left t rest =>
      rwa [Channel.seq_left hr, handleWriteEvent_of_alive revents (handleRead_left hr).1] at hread

/-- Before its first `read`, `handleEvent` has acted on a hang-up. -/
lemma handleEvent_nil (h : handleEvent revents s [] = .ok r) :
    r = if Reads revents then .inside (afterHangUp revents s)
      else .left (afterHangUp revents s) [] := by
  split
  · rename_i hreads
    exact handleRead_nil_eq_ok (handleEvent_of_reads hreads h)
  · rename_i hreads
    exact ((handleEvent_cases h).resolve_right fun hread => hreads hread.1).2

/-- `handleEvent` goes on with a `read`. -/
lemma handleEvent_append (hin : handleEvent revents s os = .ok (.inside u))
    (h : handleEvent revents s (os ++ [o]) = .ok r) :
    o = .failed EAGAIN ∧ r = .left u [] ∨ o ≠ .failed EAGAIN ∧ r = .inside (after u o) := by
  have hreads : Reads revents := by
    by_contra hnot
    have hleft := ((handleEvent_cases hin).resolve_right fun hread => hnot hread.1).2
    cases hleft
  have happend : handleRead (afterHangUp revents s) (os ++ [o]) = handleRead u [o] :=
    (InputLoop.run_append (handleEvent_of_reads hreads hin)).2
  have hread : handleRead u [o] = .ok r := happend.symm.trans (handleEvent_of_reads hreads h)
  have hu : Alive u := alive_of_handleRead hread
  by_cases ho : o = .failed EAGAIN
  · subst ho
    rw [handleRead_eagain hu] at hread
    cases hread
    exact .inl ⟨rfl, rfl⟩
  · rw [handleRead_cons hu ho] at hread
    exact .inr ⟨ho, handleRead_nil_eq_ok hread⟩

/-! ### The device -/

/-- `connectEstablished()` -/
def connectEstablished (s : State) : State := { s with registered := true }

/-- A connection as `newConnection` leaves it, in `ConnectionMap`. -/
def accepted : State where
  inMap := true
  copies := 0
  registered := false
  messages := []
  closeCalls := 0

/-- How far `runInLoop` has got with `connectEstablished`. -/
inductive Stage
  | accepted
  /-- It is in the queue of the loop. -/
  | submitted
  | established
  deriving DecidableEq

/-- Where the loop thread is with the connection. -/
inductive Thread
  | idle
  | listed (revents : Events)
  /-- In `handleEvent`, which began in the state `start` and has read the outcomes `os`. -/
  | handling (revents : Events) (start : State) (os : List ReadOutcome)
      (progress : Progress State ReadOutcome)

structure OnLoop where
  /-- The connection at the last return of `handleEvent`. -/
  conn : State
  stage : Stage
  /-- The channel is in the ready list of epoll. -/
  edge : Bool
  thread : Thread

/-- The connection. -/
def OnLoop.current (t : OnLoop) : State :=
  match t.thread with
  | .handling _ _ _ progress => progress.state
  | _ => t.conn

/-- What a poll makes of the channel. -/
inductive Poll
  /-- The scan of the ready list does not come to it. -/
  | skip
  /-- It has nothing to report, and leaves the ready list. -/
  | drop
  | report (revents : Events)
  deriving DecidableEq

inductive Event
  /-- `connectEstablished` enters the queue of the loop. -/
  | submit
  /-- The queue runs `connectEstablished`; the channel is ready at once, or not. -/
  | establish (ready : Bool)
  /-- `runInLoop` runs it, on the loop thread. -/
  | establishNow (ready : Bool)
  /-- The kernel queues an edge. -/
  | edge
  | poll (answer : Poll)
  | enter
  /-- A `read` of `handleRead`. -/
  | read (o : ReadOutcome)
  | leave

inductive Obs
  | dispatched (revents : Events)
  | read (o : ReadOutcome)
  deriving DecidableEq

/-- `EPOLL_CTL_ADD` of a channel that is ready queues an edge. -/
def establish (t : OnLoop) (ready : Bool) : OnLoop :=
  { t with conn := connectEstablished t.conn, stage := .established, edge := ready }

/-- `handleEvent` goes on to its next `read`, or to its end. A channel that is removed leaves the
ready list. -/
def goOn (t : OnLoop) (revents : Events) (start : State) (os : List ReadOutcome) :
    Option OnLoop :=
  match handleEvent revents start os with
  | .ok progress =>
    some { t with edge := t.edge && progress.state.registered
                  thread := .handling revents start os progress }
  | .error _ => none

def step (t : OnLoop) : Event → Option (OnLoop × List Obs)
  | .submit =>
    if t.stage = .accepted then some ({ t with stage := .submitted }, []) else none
  | .establish ready => if t.stage = .submitted then some (establish t ready, []) else none
  | .establishNow ready => if t.stage = .accepted then some (establish t ready, []) else none
  | .edge => if t.current.registered then some ({ t with edge := true }, []) else none
  | .poll answer =>
    match t.thread, answer with
    | .idle, .skip => some (t, [])
    | .idle, .drop => some ({ t with edge := false }, [])
    | .idle, .report revents =>
      if t.edge then some ({ t with edge := false, thread := .listed revents }, []) else none
    | _, _ => none
  | .enter =>
    match t.thread with
    | .listed revents => (goOn t revents t.conn []).map (·, [.dispatched revents])
    | _ => none
  | .read o =>
    match t.thread with
    | .handling revents start os (.inside _) =>
      (goOn t revents start (os ++ [o])).map (·, [.read o])
    | _ => none
  | .leave =>
    match t.thread with
    | .handling _ _ _ (.left s []) => some ({ t with conn := s, thread := .idle }, [])
    | _ => none

def OnLoop.phase (t : OnLoop) : Phase :=
  match t.thread with
  | .idle => .idle
  | .listed _ => .listed
  | .handling .. => .handling

def Event.port : Event → Port
  | .submit => .submit
  | .establish _ => .call
  | .establishNow _ => .direct
  | .edge => .env
  | .poll (.report _) => .poll true
  | .poll _ => .poll false
  | .enter => .enter
  | .read _ => .inside
  | .leave => .leave

/-! ### What a step can do -/

inductive Move (t : OnLoop) : Event → OnLoop → List Obs → Prop
  | submit (hstage : t.stage = .accepted) : Move t .submit { t with stage := .submitted } []
  | establish (ready : Bool) (hstage : t.stage = .submitted) :
      Move t (.establish ready) (establish t ready) []
  | establishNow (ready : Bool) (hstage : t.stage = .accepted) :
      Move t (.establishNow ready) (establish t ready) []
  | edge (hregistered : t.current.registered = true) : Move t .edge { t with edge := true } []
  | skip (hthread : t.thread = .idle) : Move t (.poll .skip) t []
  | drop (hthread : t.thread = .idle) : Move t (.poll .drop) { t with edge := false } []
  | report (revents : Events) (hthread : t.thread = .idle) (hedge : t.edge = true) :
      Move t (.poll (.report revents)) { t with edge := false, thread := .listed revents } []
  | enter (revents : Events) (progress : Progress State ReadOutcome)
      (hthread : t.thread = .listed revents)
      (hprogress : handleEvent revents t.conn [] = .ok progress) :
      Move t .enter { t with edge := t.edge && progress.state.registered
                             thread := .handling revents t.conn [] progress }
        [.dispatched revents]
  | read (revents : Events) (start u : State) (os : List ReadOutcome) (o : ReadOutcome)
      (progress : Progress State ReadOutcome)
      (hthread : t.thread = .handling revents start os (.inside u))
      (hprogress : handleEvent revents start (os ++ [o]) = .ok progress) :
      Move t (.read o) { t with edge := t.edge && progress.state.registered
                                thread := .handling revents start (os ++ [o]) progress }
        [.read o]
  | leave (revents : Events) (start s : State) (os : List ReadOutcome)
      (hthread : t.thread = .handling revents start os (.left s [])) :
      Move t .leave { t with conn := s, thread := .idle } []

variable {t t' : OnLoop} {e : Event} {obs obs' : List Obs}

lemma goOn_eq_some {start : State} (h : goOn t revents start os = some t') :
    ∃ progress, handleEvent revents start os = .ok progress ∧
      t' = { t with edge := t.edge && progress.state.registered
                    thread := .handling revents start os progress } := by
  simp only [goOn] at h
  split at h <;> cases h
  exact ⟨_, ‹_›, rfl⟩

lemma Move.of_step (h : step t e = some (t', obs)) : Move t e t' obs := by
  cases e with
  | submit =>
    simp only [step] at h
    split at h <;> cases h
    exact .submit ‹_›
  | establish ready =>
    simp only [step] at h
    split at h <;> cases h
    exact .establish ready ‹_›
  | establishNow ready =>
    simp only [step] at h
    split at h <;> cases h
    exact .establishNow ready ‹_›
  | edge =>
    simp only [step] at h
    split at h <;> cases h
    exact .edge ‹_›
  | poll answer =>
    simp only [step] at h
    split at h
    · cases h
      exact .skip ‹_›
    · cases h
      exact .drop ‹_›
    · split at h <;> cases h
      exact .report _ ‹_› ‹_›
    · cases h
  | enter =>
    simp only [step] at h
    split at h
    · obtain ⟨u, hu, heq⟩ := Option.map_eq_some_iff.mp h
      obtain ⟨progress, hprogress, rfl⟩ := goOn_eq_some hu
      cases heq
      exact .enter _ progress ‹_› hprogress
    · cases h
  | read o =>
    simp only [step] at h
    split at h
    · obtain ⟨u, hu, heq⟩ := Option.map_eq_some_iff.mp h
      obtain ⟨progress, hprogress, rfl⟩ := goOn_eq_some hu
      cases heq
      exact .read _ _ _ _ o progress ‹_› hprogress
    · cases h
  | leave =>
    simp only [step] at h
    split at h <;> cases h
    exact .leave _ _ _ _ ‹_›

lemma Move.goes (h : Move t e t' obs) : e.port.Goes t.phase t'.phase := by
  cases h with
  | submit | establish | establishNow | edge => exact rfl
  | skip hthread | drop hthread =>
    have hphase : t.phase = .idle := by simp [OnLoop.phase, hthread]
    exact ⟨hphase, hphase⟩
  | report revents hthread => exact ⟨by simp [OnLoop.phase, hthread], rfl⟩
  | enter revents progress hthread | read revents start u os o progress hthread
  | leave revents start s os hthread => exact ⟨by simp [OnLoop.phase, hthread], rfl⟩

/-- The progress of `handleEvent` is the one of its outcomes. -/
def Course (t : OnLoop) : Prop := ∀ revents start os progress,
  t.thread = .handling revents start os progress → handleEvent revents start os = .ok progress

lemma Course.of_not_handling (h : t.phase ≠ .handling) : Course t := by
  intro revents start os progress hthread
  exact absurd (by simp [OnLoop.phase, hthread]) h

lemma Course.move (hc : Course t) (h : Move t e t' obs) : Course t' := by
  cases h with
  | submit | establish | establishNow | edge | skip => exact hc
  | drop hthread | report _ hthread | leave _ _ _ _ hthread =>
    exact .of_not_handling (by simp [OnLoop.phase, hthread])
  | enter revents progress hthread hprogress =>
    rintro _ _ _ _ ⟨⟩
    exact hprogress
  | read revents start u os o progress hthread hprogress =>
    rintro _ _ _ _ ⟨⟩
    exact hprogress

/-- The connection on its loop. -/
def device : Device OnLoop Event Obs where
  system :=
    { init := ⟨accepted, .accepted, false, .idle⟩
      step := step }
  phase := OnLoop.phase
  port := Event.port
  starts := rfl
  goes h := (Move.of_step h).goes

lemma course_of_reachable (h : device.system.Reachable t) : Course t :=
  h.invariant (.of_not_handling (by simp [device, OnLoop.phase])) fun _ _ _ _ _ hc he =>
    hc.move (.of_step he)

/-- The state behind a `read`. -/
lemma Course.state_read {start : State} (hc : Course t)
    (hthread : t.thread = .handling revents start os (.inside u))
    (hprogress : handleEvent revents start (os ++ [o]) = .ok r) :
    r.state = if o = .failed EAGAIN then u else after u o := by
  rcases handleEvent_append (hc _ _ _ _ hthread) hprogress with ⟨ho, rfl⟩ | ⟨ho, rfl⟩
  · rw [if_pos ho, Progress.state_left]
  · rw [if_neg ho, Progress.state_inside]

end ClwServer.TcpConnection
