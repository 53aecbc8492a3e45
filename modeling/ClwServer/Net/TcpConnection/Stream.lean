import ClwServer.Net.TcpConnection.OnLoop

/-!
# The input of a connection

A connection whose peer neither closes nor resets. Its bytes come at any time: before
`connectEstablished`, between an event and its dispatch, between two reads, or behind the `EAGAIN`.
The kernel announces a new byte with one edge.
-/

namespace ClwServer.TcpConnection

open Cpp Posix
open EventLoop (Device watch)

/-! ### The receive buffer of the kernel -/

structure Stream where
  /-- The bytes that have come, in order. -/
  received : List Byte
  /-- Those that no `read` has taken. -/
  unread : List Byte

inductive Stream.Event
  | arrive (bytes : List Byte)
  | take (bytes : List Byte)

def Stream.step (k : Stream) : Stream.Event → Option (Stream × List Empty)
  | .arrive bytes =>
    if bytes ≠ [] then some (⟨k.received ++ bytes, k.unread ++ bytes⟩, []) else none
  | .take bytes =>
    if bytes <+: k.unread then some ({ k with unread := k.unread.drop bytes.length }, []) else none

def stream : System Stream Stream.Event Empty where
  init := ⟨[], []⟩
  step := Stream.step

/-- What the kernel does. A byte that comes to a registered channel queues an edge, which may also
come without one, and `EPOLL_CTL_ADD` queues an edge if there is something to read. Without an end
of file, a hang-up or an error, epoll reports only input, and a `read` takes as much as it likes of
the bytes, is interrupted, or finds nothing. -/
def kernel (t : OnLoop) (k : Stream) : Option Event → Option Stream.Event → Bool
  | none, some (.arrive _) => !t.current.registered
  | some .edge, some (.arrive _) => true
  | some .edge, none => true
  | some (.establish ready), none => ready == !k.unread.isEmpty
  | some (.establishNow ready), none => ready == !k.unread.isEmpty
  | some (.poll .drop), none => k.unread.isEmpty
  | some (.poll (.report revents)), none => decide (revents = EPOLLIN) && !k.unread.isEmpty
  | some (.read (.data chunk _)), some (.take bytes) => decide (chunk.bytes = bytes)
  | some (.read (.failed e)), none => decide (e = EINTR) || decide (e = EAGAIN) && k.unread.isEmpty
  | some .submit, none => true
  | some (.poll .skip), none => true
  | some .enter, none => true
  | some .leave, none => true
  | _, _ => false

/-- A connection and its input. -/
def input : System (OnLoop × Stream) (Option Event × Option Stream.Event) (Obs ⊕ Empty) :=
  device.system.product stream fun t k e a => kernel t k e a = true

def inputDevice : Device (OnLoop × Stream) (Option Event × Option Stream.Event) (Obs ⊕ Empty) where
  system := input
  phase p := p.1.phase
  port e := e.1.elim .env Event.port
  starts := rfl
  goes {p q e o} h := by
    obtain ⟨-, o₁, o₂, ht, -, -⟩ := System.product_step.mp h
    obtain ⟨e, a⟩ := e
    cases e with
    | none =>
      obtain ⟨heq, -⟩ := Prod.mk.inj (Option.some.inj ht)
      show q.1.phase = p.1.phase
      rw [heq]
    | some e => exact device.goes ht

/-! ### The invariant -/

/-- The next `read` is on its way. -/
inductive WillRead : Thread → Prop
  | listed : WillRead (.listed EPOLLIN)
  | inside (revents : Events) (start u : State) (os : List ReadOutcome) :
      WillRead (.handling revents start os (.inside u))

/-- No byte is lost, and none that waits is without an edge or a `read` to come. -/
structure Sound (t : OnLoop) (k : Stream) : Prop where
  delivered : t.current.messages.flatten ++ k.unread = k.received
  registered : t.current.registered = true ↔ t.stage = .established
  early : t.stage ≠ .established → t.edge = false ∧ t.thread = .idle
  mask : ∀ revents, t.thread = .listed revents → revents = EPOLLIN
  heard : t.stage = .established → k.unread ≠ [] → t.edge = true ∨ WillRead t.thread

variable {t t' : OnLoop} {k k' : Stream} {e : Event} {a : Option Stream.Event} {o : List Obs}
  {o' : List Empty}

lemma Stream.arrive_eq_some {bytes : List Byte} (h : k.step (.arrive bytes) = some (k', o')) :
    k'.unread = k.unread ++ bytes ∧ k'.received = k.received ++ bytes := by
  simp only [Stream.step] at h
  split at h <;> cases h
  exact ⟨rfl, rfl⟩

lemma Stream.take_eq_some {bytes : List Byte} (h : k.step (.take bytes) = some (k', o')) :
    bytes ++ k'.unread = k.unread ∧ k'.received = k.received := by
  simp only [Stream.step] at h
  split at h <;> cases h
  rename_i hpre
  exact ⟨List.prefix_iff_eq_append.mp hpre, rfl⟩

lemma afterHangUp_input (s : State) : afterHangUp EPOLLIN s = s := if_neg (by decide)

lemma sound_init : Sound device.system.init stream.init where
  delivered := rfl
  registered := by simp [device, OnLoop.current, accepted]
  early := fun _ => ⟨rfl, rfl⟩
  mask := by simp [device]
  heard := by simp [device]

/-- The connection is the same, and so is its input. -/
lemma Sound.keep (h : Sound t k) (hcurrent : t'.current = t.current) (hstage : t'.stage = t.stage)
    (hearly : t.stage ≠ .established → t'.edge = false ∧ t'.thread = .idle)
    (hmask : ∀ revents, t'.thread = .listed revents → revents = EPOLLIN)
    (hheard : t.stage = .established → k.unread ≠ [] → t'.edge = true ∨ WillRead t'.thread) :
    Sound t' k where
  delivered := by rw [hcurrent, h.delivered]
  registered := by rw [hcurrent, hstage, h.registered]
  early := by rwa [hstage]
  mask := hmask
  heard := by rwa [hstage]

/-- Bytes come; a registered channel has an edge now. -/
lemma Sound.arrive {bytes : List Byte} (h : Sound t k)
    (hedge : t.stage = .established → t.edge = true)
    (hk : k.step (.arrive bytes) = some (k', o')) : Sound t k' := by
  obtain ⟨hunread, hreceived⟩ := Stream.arrive_eq_some hk
  refine ⟨?_, h.registered, h.early, h.mask, fun hest _ => .inl (hedge hest)⟩
  rw [hunread, hreceived, ← h.delivered, List.append_assoc]

lemma Sound.establish (h : Sound t k) (hstage : t.stage ≠ .established) {ready : Bool}
    (hready : k.unread ≠ [] → ready = true) : Sound (establish t ready) k := by
  have hidle := (h.early hstage).2
  have hcurrent : t.current = t.conn := by simp [OnLoop.current, hidle]
  have hnew : (TcpConnection.establish t ready).current = connectEstablished t.conn := by
    simp [OnLoop.current, TcpConnection.establish, hidle]
  refine ⟨?_, ?_, fun hne => absurd rfl hne, h.mask, fun _ hunread => .inl (hready hunread)⟩
  · rw [hnew, ← h.delivered, hcurrent]
    rfl
  · rw [hnew]
    exact iff_of_true rfl rfl

/-- The other steps neither bring bytes nor take them. -/
lemma eq_none_of_kernel (h : kernel t k (some e) a = true) (hedge : e ≠ .edge)
    (hread : ∀ r, e ≠ .read r) : a = none := by
  cases a with
  | none => rfl
  | some x =>
    cases e with
    | edge => exact absurd rfl hedge
    | read r => exact absurd rfl (hread r)
    | poll answer => cases answer <;> simp [kernel] at h
    | _ => simp [kernel] at h

lemma Sound.read {u : State} {start : State} {os : List ReadOutcome} {revents : Events}
    {r : ReadOutcome} {progress : Progress State ReadOutcome} (h : Sound t k) (hc : Course t)
    (hthread : t.thread = .handling revents start os (.inside u))
    (hprogress : handleEvent revents start (os ++ [r]) = .ok progress)
    (hkernel : kernel t k (some (.read r)) a = true) (hk : stream.stepOr k a = some (k', o')) :
    progress.state.messages.flatten ++ k'.unread = k'.received ∧
      progress.state.registered = u.registered ∧
      (k'.unread ≠ [] → progress = .inside progress.state) := by
  have hcurrent : t.current = u := by simp [OnLoop.current, hthread]
  have hdelivered := h.delivered
  rw [hcurrent] at hdelivered
  cases a with
  | none =>
    cases hk
    cases r with
    | data | eof => simp [kernel] at hkernel
    | failed e =>
      rcases handleEvent_append (hc _ _ _ _ hthread) hprogress with ⟨ho, rfl⟩ | ⟨ho, rfl⟩
      · refine ⟨hdelivered, rfl, fun hunread => ?_⟩
        cases ho
        simp [kernel, EINTR, EAGAIN, hunread] at hkernel
      · exact ⟨hdelivered, rfl, fun _ => rfl⟩
  | some x =>
    cases r with
    | eof | failed => simp [kernel] at hkernel
    | data chunk keeps =>
      cases x with
      | arrive => simp [kernel] at hkernel
      | take bytes =>
        obtain rfl : chunk.bytes = bytes := by simpa [kernel] using hkernel
        obtain ⟨hunread, hreceived⟩ := Stream.take_eq_some hk
        rcases handleEvent_append (hc _ _ _ _ hthread) hprogress with ⟨ho, -⟩ | ⟨-, rfl⟩
        · cases ho
        · refine ⟨?_, rfl, fun _ => rfl⟩
          simp only [Progress.state_inside, after, messageCallback, List.flatten_append,
            List.flatten_singleton]
          rw [List.append_assoc, hunread, hreceived, hdelivered]

lemma Sound.move (h : Sound t k) (hc : Course t) (hm : Move t e t' o)
    (hkernel : kernel t k (some e) a = true) (hk : stream.stepOr k a = some (k', o')) :
    Sound t' k' := by
  have hsame : e ≠ .edge → (∀ r, e ≠ .read r) → a = none ∧ k' = k := by
    intro hedge hread
    obtain rfl := eq_none_of_kernel hkernel hedge hread
    cases hk
    exact ⟨rfl, rfl⟩
  cases hm with
  | submit hstage =>
    obtain ⟨rfl, rfl⟩ := hsame (by simp) (by simp)
    have hne : t.stage ≠ .established := by simp [hstage]
    have hregistered : t.current.registered ≠ true := fun heq => hne (h.registered.mp heq)
    exact ⟨h.delivered, iff_of_false hregistered (by simp), fun _ => h.early hne, h.mask, by simp⟩
  | establish ready hstage | establishNow ready hstage =>
    obtain ⟨rfl, rfl⟩ := hsame (by simp) (by simp)
    refine h.establish (by simp [hstage]) fun hunread => ?_
    have hempty : k'.unread.isEmpty = false := List.isEmpty_eq_false_iff.mpr hunread
    simpa [kernel, hempty] using hkernel
  | edge hregistered =>
    have hest := h.registered.mp hregistered
    have hnew : Sound { t with edge := true } k :=
      h.keep rfl rfl (fun hne => absurd hest hne) h.mask fun _ _ => .inl rfl
    cases a with
    | none =>
      cases hk
      exact hnew
    | some x =>
      cases x with
      | take => simp [kernel] at hkernel
      | arrive bytes => exact hnew.arrive (fun _ => rfl) hk
  | skip hthread =>
    obtain ⟨rfl, rfl⟩ := hsame (by simp) (by simp)
    exact h
  | drop hthread =>
    obtain ⟨rfl, rfl⟩ := hsame (by simp) (by simp)
    refine h.keep rfl rfl (fun _ => ⟨rfl, hthread⟩) h.mask fun _ hunread => ?_
    simp [kernel, hunread] at hkernel
  | report revents hthread hedge =>
    obtain ⟨rfl, rfl⟩ := hsame (by simp) (by simp)
    obtain ⟨rfl, -⟩ : revents = EPOLLIN ∧ _ := by simpa [kernel] using hkernel
    have hcurrent : t.current = t.conn := by simp [OnLoop.current, hthread]
    refine h.keep hcurrent.symm rfl (fun hne => ?_) ?_ fun _ _ => .inr .listed
    · rw [(h.early hne).1] at hedge
      cases hedge
    · rintro _ ⟨⟩
      rfl
  | enter revents progress hthread hprogress =>
    obtain ⟨rfl, rfl⟩ := hsame (by simp) (by simp)
    obtain rfl := h.mask revents hthread
    have hcurrent : t.current = t.conn := by simp [OnLoop.current, hthread]
    rw [handleEvent_nil hprogress, if_pos (by decide), afterHangUp_input]
    refine h.keep hcurrent.symm rfl (fun hne => ?_) (by simp) fun _ _ => .inr (.inside ..)
    rw [(h.early hne).2] at hthread
    cases hthread
  | read revents start u os r progress hthread hprogress =>
    obtain ⟨hdelivered, hregistered, hheard⟩ := h.read hc hthread hprogress hkernel hk
    have hcurrent : t.current = u := by simp [OnLoop.current, hthread]
    refine ⟨hdelivered, ?_, fun hne => ?_, by simp, fun _ hunread => ?_⟩
    · rw [← h.registered, hcurrent, ← hregistered]
      rfl
    · rw [(h.early hne).2] at hthread
      cases hthread
    · rw [hheard hunread]
      exact .inr (.inside ..)
  | leave revents start s os hthread =>
    obtain ⟨rfl, rfl⟩ := hsame (by simp) (by simp)
    have hcurrent : t.current = s := by simp [OnLoop.current, hthread]
    refine h.keep hcurrent.symm rfl (fun hne => ⟨(h.early hne).1, rfl⟩) (by simp)
      fun hest hunread => .inl ?_
    -- behind the `EAGAIN` no read is to come
    refine (h.heard hest hunread).resolve_right fun hwill => ?_
    rw [hthread] at hwill
    cases hwill

lemma sound_of_reachable {p : OnLoop × Stream} (h : input.Reachable p) :
    Sound p.1 p.2 := by
  refine h.invariant (P := fun p => Sound p.1 p.2) sound_init ?_
  rintro ⟨t, k⟩ ⟨e, a⟩ ⟨t', k'⟩ o ⟨obs, hr⟩ hs he
  obtain ⟨hkernel, o₁, o₂, ht, hk, -⟩ := System.product_step.mp he
  cases e with
  | some e => exact hs.move (course_of_reachable hr.fst.reachable) (.of_step ht) hkernel hk
  | none =>
    cases ht
    rcases a with _ | ⟨⟨bytes⟩ | ⟨bytes⟩⟩
    · simp [kernel] at hkernel
    · -- it is not registered yet
      refine hs.arrive (fun hest => ?_) hk
      simp [kernel, hs.registered.mpr hest] at hkernel
    · simp [kernel] at hkernel

/-! ### No input is stranded -/

/-- `connectEstablished` is in the queue of the loop. -/
def Submitted (p : OnLoop × Stream) : Prop := p.1.stage = .submitted

lemma submitted_step {p q : OnLoop × Stream} {e : Option Event × Option Stream.Event}
    {o : List (Obs ⊕ Empty)} (h : input.step p e = some (q, o)) (hq : Submitted q) :
    inputDevice.port e = .submit ∨ Submitted p ∧ inputDevice.port e ≠ .call := by
  obtain ⟨-, o₁, o₂, ht, -, -⟩ := System.product_step.mp h
  obtain ⟨t, k⟩ := p
  obtain ⟨t', k'⟩ := q
  obtain ⟨e, a⟩ := e
  cases e with
  | none =>
    cases ht
    exact .inr ⟨hq, by simp [inputDevice]⟩
  | some e =>
    have hm : Move t e t' o₁ := .of_step ht
    cases hm with
    | submit => exact .inl rfl
    | establish | establishNow => cases hq
    | report | edge | skip | drop | enter | read | leave =>
      exact .inr ⟨hq, by simp [inputDevice, Event.port]⟩

section Watch

variable {F : Type} [DecidableEq F] {c : ℕ} {mine : Option F}

/-- The message callback has got a prefix of the bytes that have come. While the loop is blocked in
`epoll_wait` with bytes unread, an edge is queued, or `connectEstablished` has not run yet:
`runInLoop` has not queued it, or it is queued and the loop is on its way to it. -/
theorem input_not_stranded {p : EventLoop.State F × OnLoop × Stream}
    (h : (watch c mine inputDevice).Reachable p) :
    p.2.1.current.messages.flatten <+: p.2.2.received ∧
      (p.1.pc = .wait → p.2.2.unread ≠ [] →
        p.2.1.edge = true ∨ p.2.1.stage = .accepted ∨ p.2.1.stage = .submitted ∧
          ∃ f, mine = some f ∧ f ∈ p.1.pendingFunctors ∧
            ((∃ t, p.1.callers t = .pushed) ∨ p.1.wakeupFd.Undelivered)) := by
  obtain ⟨obs, hrun⟩ := h
  have hs : Sound p.2.1 p.2.2 := sound_of_reachable hrun.snd.reachable
  refine ⟨⟨p.2.2.unread, hs.delivered⟩, fun hpc hunread => ?_⟩
  cases hstage : p.2.1.stage with
  | accepted => exact .inr (.inl rfl)
  | submitted =>
    have hinit : ¬Submitted inputDevice.system.init := by
      intro hsubmitted
      cases hsubmitted
    exact .inr (.inr ⟨rfl, EventLoop.served_of_waiting hinit
      (fun _ _ _ _ => submitted_step) hrun.reachable hpc hstage⟩)
  | established =>
    refine .inl ((hs.heard hstage hunread).resolve_right fun hwill => ?_)
    have hidle := EventLoop.idle_of_wait hrun.reachable hpc
    change p.2.1.phase = .idle at hidle
    cases hthread : p.2.1.thread <;> simp [OnLoop.phase, hthread] at hidle
    rw [hthread] at hwill
    cases hwill

end Watch

/-- A step of the kernel or of the connection, aside of the loop. -/
def aside (e : Option Event) (a : Option Stream.Event) :
    Option (EventLoop.Event ℕ) × Option (Option Event × Option Stream.Event) :=
  (none, some (e, a))

/-- A step of the loop, which may be one of the connection. -/
def along (e : EventLoop.Event ℕ) (x : Option Event) :
    Option (EventLoop.Event ℕ) × Option (Option Event × Option Stream.Event) :=
  (some e, x.map fun x => (some x, none))

/-- A peer writes before the connection is registered, while it is listed, and behind the `EAGAIN`;
a `read` is short, and one is interrupted. -/
theorem input_not_stranded_short_reads : ∃ p : EventLoop.State ℕ × OnLoop × Stream,
    (watch 0 (some 7) inputDevice).Reachable p ∧ p.1.pc = .wait ∧ p.2.2.unread ≠ [] ∧
      p.2.1.current.messages.flatten <+: p.2.2.received ∧ p.2.1.edge = true := by
  have hfinal : ∃ p shown,
      (watch 0 (some 7) inputDevice).exec (watch 0 (some 7) inputDevice).init
        [along .loop none, along .loop none, along .loop none,
          aside none (some (.arrive [104, 105])), along (.queue 1 7) (some .submit),
          along (.wake 1) none, along (.poll [] [] true) (some (.poll .skip)),
          along .loop none, along .loop none, along .loop none, along .loop none,
          along .loop (some (.establish true)), along .ownReturn none,
          along .loop none, along .loop none, along .loop none,
          along (.poll [0] [] false) (some (.poll (.report EPOLLIN))),
          aside (some .edge) (some (.arrive [33])), along .loop (some .enter),
          aside (some (.read (.data ⟨[104], by simp, by simp⟩ 1))) (some (.take [104])),
          aside (some (.read (.failed EINTR))) none,
          aside (some (.read (.data ⟨[105, 33], by simp, by simp⟩ 0))) (some (.take [105, 33])),
          aside (some (.read (.failed EAGAIN))) none, aside (some .edge) (some (.arrive [34])),
          along .ownReturn (some .leave), along .loop none, along .loop none, along .loop none,
          along .loop none, along .loop none, along .loop none] = some (p, shown) ∧
      p.1.pc = .wait ∧ p.2.1.stage = .established ∧ p.2.2.unread = [34] :=
    ⟨_, _, rfl, rfl, rfl, rfl⟩
  obtain ⟨p, shown, hexec, hpc, hstage, hunread⟩ := hfinal
  have hreachable : (watch 0 (some 7) inputDevice).Reachable p := ⟨shown, .of_exec _ hexec⟩
  have hne : p.2.2.unread ≠ [] := by simp [hunread]
  obtain ⟨hpre, hheard⟩ := input_not_stranded hreachable
  refine ⟨p, hreachable, hpc, hne, hpre, ?_⟩
  simpa [hstage] using hheard hpc hne

/-- A peer writes to a connection that `connectEstablished` has not registered yet. The loop is in
`epoll_wait`, and the call of `queueInLoop` is before its `wakeup`. -/
theorem unheard_before_registration : ∃ p : EventLoop.State ℕ × OnLoop × Stream,
    (watch 0 (some 7) inputDevice).Reachable p ∧ p.1.pc = .wait ∧ ¬p.1.wakeupFd.Undelivered ∧
      p.2.2.unread ≠ [] ∧ p.2.1.edge = false := by
  obtain ⟨p, shown, hexec, hpc, hwakeup, hunread, hedge⟩ : ∃ p shown,
      (watch 0 (some 7) inputDevice).exec (watch 0 (some 7) inputDevice).init
        [along .loop none, along .loop none, along .loop none,
          along (.queue 1 7) (some .submit), aside none (some (.arrive [104]))] = some (p, shown) ∧
      p.1.pc = .wait ∧ p.1.wakeupFd = .new ∧ p.2.2.unread = [104] ∧ p.2.1.edge = false :=
    ⟨_, _, rfl, rfl, rfl, rfl, rfl⟩
  refine ⟨p, ⟨shown, .of_exec _ hexec⟩, hpc, ?_, by simp [hunread], hedge⟩
  rw [hwakeup]
  decide

end ClwServer.TcpConnection
