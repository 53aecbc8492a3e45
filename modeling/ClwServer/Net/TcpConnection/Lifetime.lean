import ClwServer.Net.TcpConnection.Basic

/-!
# The lifetime of a connection

`handleClose` drops the entry of `ConnectionMap` and returns into code that goes on with the
connection: `handleRead` reads `channel_->fd()` for its next turn, `handleEvent` the next bits of
`revents_`. Both are safe exactly as long as somebody else holds a copy of the pointer.
-/

namespace ClwServer.TcpConnection

open Cpp Posix
open Channel (HungUp)

/-- The outcomes the loop of `handleRead` takes before it leaves. -/
def consumed (os : List ReadOutcome) : List ReadOutcome := os.takeWhile (· ≠ .failed EAGAIN)

/-- The copies held behind some outcomes: the message callback keeps what it likes. -/
def copiesAfter (copies : ℕ) (os : List ReadOutcome) : ℕ :=
  os.foldl (fun c o => match o with
    | .data _ keeps => keeps
    | _ => c) copies

/-- Behind the outcomes `p` somebody holds the pointer: the map, if it did at the beginning and
no end of file is among them, or the owner of a copy. -/
def Held (inMap : Bool) (copies : ℕ) (p : List ReadOutcome) : Prop :=
  inMap = true ∧ .eof ∉ p ∨ 0 < copiesAfter copies p

variable {s t : State} {o : ReadOutcome} {os p : List ReadOutcome}

lemma held_nil : Held s.inMap s.copies [] ↔ Alive s := by
  simp [Held, copiesAfter, Alive]

lemma held_cons : Held s.inMap s.copies (o :: p) ↔ Held (after s o).inMap (after s o).copies p := by
  cases o <;> simp [Held, copiesAfter, after, messageCallback, removeConnection, connectDestroyed]

lemma consumed_cons_of_ne (ho : o ≠ .failed EAGAIN) : consumed (o :: os) = o :: consumed os := by
  simp [consumed, ho]

lemma consumed_cons_eagain : consumed (.failed EAGAIN :: os) = [] := by
  simp [consumed]

/-! ### `handleRead` -/

lemma handleRead_of_not_alive (h : ¬Alive s) : handleRead s os = .error .destroyed :=
  InputLoop.run_error (touch_of_not_alive h)

lemma alive_of_handleRead {r : Progress State ReadOutcome} (h : handleRead s os = .ok r) :
    Alive s := by
  by_contra hs
  rw [handleRead_of_not_alive hs] at h
  cases h

lemma handleRead_nil_eq_ok {r : Progress State ReadOutcome} (h : handleRead s [] = .ok r) :
    r = .inside s := by
  have hnil : handleRead s [] = .ok (.inside s) :=
    InputLoop.run_nil (touch_of_alive (alive_of_handleRead h))
  exact Except.ok.inj (h.symm.trans hnil)

lemma handleRead_eagain (h : Alive s) :
    handleRead s (.failed EAGAIN :: os) = .ok (.left s os) :=
  InputLoop.run_leave (touch_of_alive h) turn_eagain

lemma handleRead_cons (h : Alive s) (ho : o ≠ .failed EAGAIN) :
    handleRead s (o :: os) = handleRead (after s o) os :=
  InputLoop.run_again (touch_of_alive h) (turn_of_ne h ho)

/-- `handleRead` uses a living connection throughout if and only if the pointer is held behind
every outcome it takes. -/
lemma handleRead_ok_iff :
    (∃ r, handleRead s os = .ok r) ↔ ∀ p, p <+: consumed os → Held s.inMap s.copies p := by
  induction os generalizing s with
  | nil =>
    by_cases hs : Alive s
    · have hnil : handleRead s [] = .ok (.inside s) := InputLoop.run_nil (touch_of_alive hs)
      simpa [hnil, consumed, held_nil] using hs
    · simpa [handleRead_of_not_alive hs, consumed, held_nil] using hs
  | cons o os ih =>
    by_cases hs : Alive s
    · by_cases ho : o = .failed EAGAIN
      · subst ho
        simpa [handleRead_eagain hs, consumed_cons_eagain, held_nil] using hs
      · rw [handleRead_cons hs ho, ih, consumed_cons_of_ne ho]
        constructor
        · intro h p hp
          rcases List.prefix_cons_iff.mp hp with rfl | ⟨q, rfl, hq⟩
          · exact held_nil.mpr hs
          · exact held_cons.mpr (h q hq)
        · intro h p hp
          exact held_cons.mp (h (o :: p) (List.prefix_cons_iff.mpr (.inr ⟨p, rfl, hp⟩)))
    · rw [handleRead_of_not_alive hs]
      constructor
      · rintro ⟨r, hr⟩
        cases hr
      · intro h
        exact absurd (held_nil.mp (h [] (List.nil_prefix))) hs

/-- The loop leaves only on `EAGAIN`, and leaves the connection as it is. -/
lemma handleRead_left {rest : List ReadOutcome} (h : handleRead s os = .ok (.left t rest)) :
    Alive t ∧ ∃ pre, os = pre ++ .failed EAGAIN :: rest ∧ handleRead s pre = .ok (.inside t) := by
  obtain ⟨pre, o, u, hos, hpre, hhead, hbody⟩ := InputLoop.run_left h
  have hu : Alive u := by
    by_contra hdead
    rw [loop_head, touch_of_not_alive hdead] at hhead
    cases hhead
  by_cases ho : o = .failed EAGAIN
  · subst ho
    rw [loop_body, turn_eagain] at hbody
    cases hbody
    exact ⟨hu, pre, hos, hpre⟩
  · rw [loop_body, turn_of_ne hu ho] at hbody
    cases hbody

/-! ### `handleEvent` -/

/-- The outcomes that are taken, if these events are handled. -/
def readOn (revents : Events) (os : List ReadOutcome) : List ReadOutcome :=
  if ¬revents.Has EPOLLERR ∧ revents.Has (EPOLLIN ||| EPOLLPRI ||| EPOLLRDHUP) then
    consumed os
  else
    []

/-- The state behind the test of `EPOLLHUP`. -/
def afterHangUp (revents : Events) (s : State) : State :=
  if HungUp revents then after s .eof else s

lemma held_afterHangUp (revents : Events) : Held (afterHangUp revents s).inMap
    (afterHangUp revents s).copies p ↔
      Held (s.inMap && !decide (HungUp revents)) s.copies p := by
  by_cases hhup : HungUp revents
  · simp [afterHangUp, hhup, after, removeConnection, connectDestroyed]
  · simp [afterHangUp, hhup]

lemma handleEvent_of_alive (revents : Events) (h : Alive s) : handleEvent revents s os =
    Channel.handleOthers touch callbacks revents (afterHangUp revents s) os := by
  rw [handleEvent, Channel.handleEvent, Channel.seq_reventsRead (touch_of_alive h)]
  apply Channel.seq_left
  by_cases hhup : HungUp revents
  · rw [afterHangUp, if_pos hhup, Channel.callIf, if_pos hhup]
    show (handleClose s).map (Progress.left · os) = _
    rw [handleClose, touch_of_alive h]
    rfl
  · rw [afterHangUp, if_neg hhup, Channel.callIf, if_neg hhup]
    rfl

lemma handleEvent_of_not_alive (revents : Events) (h : ¬Alive s) :
    handleEvent revents s os = .error .destroyed :=
  Channel.seq_reventsRead_error (touch_of_not_alive h)

/-- The test of `EPOLLOUT`. -/
def handleWriteEvent (revents : Events) : Channel.Callback State ReadOutcome :=
  Channel.seq (Channel.reventsRead touch)
    (Channel.callIf (revents.Has EPOLLOUT) (Channel.call callbacks.writecallback_))

/-- A write callback is not set. -/
lemma handleWriteEvent_of_alive (revents : Events) (h : Alive s) :
    handleWriteEvent revents s os = .ok (.left s os) := by
  rw [handleWriteEvent, Channel.seq_reventsRead (touch_of_alive h), Channel.callIf]
  split <;> rfl

/-- Only the read callback does something: the error callback reads members. -/
lemma handleOthers_of_alive (revents : Events) (h : Alive s) :
    Channel.handleOthers touch callbacks revents s os =
      if ¬revents.Has EPOLLERR ∧ revents.Has (EPOLLIN ||| EPOLLPRI ||| EPOLLRDHUP) then
        Channel.seq handleRead (handleWriteEvent revents) s os
      else
        .ok (.left s os) := by
  rw [Channel.handleOthers, Channel.seq_reventsRead (touch_of_alive h)]
  by_cases herr : revents.Has EPOLLERR
  · rw [if_pos herr, if_neg (by simp [herr])]
    show (handleError s).map (Progress.left · os) = _
    rw [handleError, touch_of_alive h]
    rfl
  · rw [if_neg herr, Channel.callIf]
    by_cases hread : revents.Has (EPOLLIN ||| EPOLLPRI ||| EPOLLRDHUP)
    · rw [if_pos hread, if_pos ⟨herr, hread⟩]
      rfl
    · have hskip : Channel.skip s os = .ok (.left s os) := rfl
      rw [if_neg hread, if_neg (by simp [hread]), Channel.seq_left hskip]
      exact handleWriteEvent_of_alive revents h

lemma handleOthers_of_not_alive (revents : Events) (h : ¬Alive s) :
    Channel.handleOthers touch callbacks revents s os = .error .destroyed :=
  Channel.seq_reventsRead_error (touch_of_not_alive h)

lemma handleOthers_ok_iff (revents : Events) :
    (∃ r, Channel.handleOthers touch callbacks revents s os = .ok r) ↔
      ∀ p, p <+: readOn revents os → Held s.inMap s.copies p := by
  by_cases hs : Alive s
  · rw [handleOthers_of_alive revents hs, readOn]
    split
    · rw [← handleRead_ok_iff]
      cases hr : handleRead s os with
      | error e => simp [Channel.seq_error hr]
      | ok r =>
        cases r with
        | inside t => simp [Channel.seq_inside hr]
        | left t rest =>
          rw [Channel.seq_left hr, handleWriteEvent_of_alive revents (handleRead_left hr).1]
    · simpa [held_nil] using hs
  · rw [handleOthers_of_not_alive revents hs]
    constructor
    · rintro ⟨r, hr⟩
      cases hr
    · intro h
      exact absurd (held_nil.mp (h [] List.nil_prefix)) hs

/-- Neither `handleEvent` nor `handleRead` uses a destroyed connection if and only if, behind every
outcome that is read, the pointer is held: by the map, unless a hang-up or an end of file has
removed the entry, or by the owner of a copy. -/
theorem handleEvent_ok_iff (revents : Events) (s : State) (os : List ReadOutcome) :
    (∃ r, handleEvent revents s os = .ok r) ↔ ∀ p, p <+: readOn revents os →
      Held (s.inMap && !decide (HungUp revents)) s.copies p := by
  by_cases hs : Alive s
  · rw [handleEvent_of_alive revents hs, handleOthers_ok_iff]
    simp only [held_afterHangUp]
  · rw [handleEvent_of_not_alive revents hs]
    constructor
    · rintro ⟨r, hr⟩
      cases hr
    · intro h
      have hheld := h [] List.nil_prefix
      exfalso
      apply hs
      rcases hheld with ⟨hmap, -⟩ | hcopies
      · exact .inl (Bool.and_eq_true_iff.mp hmap).1
      · exact .inr hcopies

/-- A connection that only the map holds. -/
def established : State where
  inMap := true
  copies := 0
  registered := true
  messages := []
  closeCalls := 0

/-- The peer closes its end, and the connection is destroyed under the hands of `handleRead`. -/
theorem destroyed_on_eof : handleEvent EPOLLIN established [.eof] = .error .destroyed := rfl

/-- So it is on a hang-up, under the hands of `handleEvent`. -/
example : handleEvent EPOLLHUP established [] = .error .destroyed := rfl

end ClwServer.TcpConnection
