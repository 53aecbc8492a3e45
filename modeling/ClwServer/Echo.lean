import ClwServer.Client
import ClwServer.Net.TcpConnection.Stream

/-!
# From the client to the loop and back

The session of the client and the connection it talks to, which an event loop serves. What the
socket of the client has taken is on its way until it comes to the receive buffer of the server,
and the chunk that `onMessage` gets is what a `read` of `handleRead` has taken from there.
-/

namespace ClwServer.Echo

open Cpp (Byte)
open Client (Session session lines served sent call)
open Server (Full toupper)
open Posix (EPOLLIN EAGAIN)
open TcpConnection (OnLoop Stream inputDevice Sound along aside)
open EventLoop (watch)

variable {F : Type}

/-- The steps of a connection on its loop. -/
abbrev Watched (F : Type) : Type :=
  Option (EventLoop.Event F) × Option (Option TcpConnection.Event × Option Stream.Event)

/-- What a step makes of the receive buffer. -/
def traffic : Option (Watched F) → Option Stream.Event
  | some (_, some (_, a)) => a
  | _ => none

/-- The steps of the session that go with it. Bytes come in the order in which the client has sent
them. -/
def carries (k : Stream) : Except Client.Fault Session → Option Stream.Event →
    Option Client.Event → Bool
  | .ok s, some (.arrive bytes), none => decide (k.unread ++ bytes <+: s.toServer)
  | .ok _, some (.take bytes), some (.serve e) => decide (e.chunk.bytes = bytes)
  | _, some _, _ => false
  | _, none, some (.serve _) => false
  | _, none, _ => true

variable [DecidableEq F] (c : ℕ) (mine : Option F) (stdin : List Byte)

/-- A client with this input, and the connection `c` on its loop. -/
def system : System ((EventLoop.State F × OnLoop × Stream) × Except Client.Fault Session)
    (Option (Watched F) × Option Client.Event)
    ((EventLoop.Obs F ⊕ TcpConnection.Obs ⊕ Empty) ⊕ Client.Obs) :=
  (watch c mine inputDevice).product (session stdin) fun p r e d =>
    carries p.2.2 r (traffic e) d = true

variable {c : ℕ} {mine : Option F} {stdin : List Byte}

/-! ### The bytes between them -/

/-- Of the bytes that have come, `onMessage` has got those that are not unread, and the unread ones
are the first that it has still to get. -/
structure Linked (obs : List Client.Obs) (k : Stream) (s : Session) : Prop where
  taken : (served obs).flatMap (·.chunk.bytes) ++ k.unread = k.received
  next : k.unread <+: s.toServer

variable {obs o : List Client.Obs} {k k' : Stream} {s t : Session} {a : Option Stream.Event}
  {e : Client.Event} {o' : List Empty}

/-- The receive buffer changes with its own steps only. -/
lemma stream_step {p q : EventLoop.State F × OnLoop × Stream} {e : Option (Watched F)}
    {o : List (EventLoop.Obs F ⊕ TcpConnection.Obs ⊕ Empty)}
    (h : (watch c mine inputDevice).stepOr p e = some (q, o)) :
    ∃ o', TcpConnection.stream.stepOr p.2.2 (traffic e) = some (q.2.2, o') := by
  rcases e with _ | ⟨e, d⟩
  · cases h
    exact ⟨[], rfl⟩
  · obtain ⟨-, o₁, o₂, -, hd, -⟩ := System.product_step.mp h
    rcases d with _ | ⟨e, a⟩
    · simp only [System.stepOr, Option.some.injEq, Prod.mk.injEq] at hd
      exact ⟨[], by rw [hd.1]; rfl⟩
    · change TcpConnection.input.step p.2 (e, a) = some (q.2, o₂) at hd
      obtain ⟨-, o₃, o₄, -, ha, -⟩ := System.product_step.mp hd
      exact ⟨o₄, ha⟩

/-- Bytes come, and the session stands still. -/
lemma Linked.arrive {bytes : List Byte} (h : Linked obs k s)
    (hnext : k.unread ++ bytes <+: s.toServer)
    (hk : k.step (.arrive bytes) = some (k', o')) : Linked obs k' s := by
  obtain ⟨hunread, hreceived⟩ := TcpConnection.Stream.arrive_eq_some hk
  refine ⟨?_, by rwa [hunread]⟩
  rw [hunread, hreceived, ← h.taken, List.append_assoc]

/-- A `read` takes the chunk of a call of `onMessage`. -/
lemma Linked.take {ex : Server.Exchange} (h : Linked obs k s)
    (hk : k.step (.take ex.chunk.bytes) = some (k', o'))
    (hm : Client.Move s t o) (ho : served o = [ex]) : Linked (obs ++ o) k' t := by
  obtain ⟨hunread, hreceived⟩ := TcpConnection.Stream.take_eq_some hk
  cases hm with
  | serve ex' rest hrest =>
    obtain rfl : ex' = ex := by simpa [served] using ho
    refine ⟨?_, ?_⟩
    · rw [Client.served_append, ho, hreceived, ← h.taken, ← hunread]
      simp
    · have hnext := h.next
      rwa [← hunread, ← hrest, List.prefix_append_right_inj] at hnext
  | _ => simp [served] at ho

/-- The client makes a step. -/
lemma Linked.move (h : Linked obs k s) (hm : Client.Move s t o) (ho : served o = []) :
    Linked (obs ++ o) k t := by
  have htaken : (served (obs ++ o)).flatMap (·.chunk.bytes) ++ k.unread = k.received := by
    rw [Client.served_append, ho, List.append_nil, h.taken]
  cases hm with
  | serve ex rest hrest => simp [served] at ho
  | send rest n hpc hn => exact ⟨htaken, h.next.trans (List.prefix_append _ _)⟩
  | line | resend | read | print => exact ⟨htaken, h.next⟩

lemma Linked.step {d : Option Client.Event} (h : Linked obs k s)
    (hcarries : carries k (.ok s) a d = true)
    (hk : TcpConnection.stream.stepOr k a = some (k', o'))
    (hs : (session stdin).stepOr (.ok s) d = some (.ok t, o)) : Linked (obs ++ o) k' t := by
  cases d with
  | none =>
    cases hs
    rw [List.append_nil]
    cases a with
    | none =>
      cases hk
      exact h
    | some x =>
      cases x with
      | arrive bytes => exact h.arrive (by simpa [carries] using hcarries) hk
      | take => simp [carries] at hcarries
  | some e =>
    obtain ⟨hm, ho⟩ := Client.call_ok (System.faulting_step_ok.mp hs)
    cases a with
    | none =>
      cases hk
      cases e with
      | serve ex => simp [carries] at hcarries
      | fgets | send | read | print => exact h.move hm ho
    | some x =>
      cases x with
      | arrive => simp [carries] at hcarries
      | take bytes =>
        cases e with
        | serve ex =>
          obtain rfl : ex.chunk.bytes = bytes := by simpa [carries] using hcarries
          exact h.take hk hm ho
        | fgets | send | read | print => simp [carries] at hcarries

section Run

variable {obs : List ((EventLoop.Obs F ⊕ TcpConnection.Obs ⊕ Empty) ⊕ Client.Obs)}
  {p : EventLoop.State F × OnLoop × Stream}

lemma linked_of_run (h : (system c mine stdin).Run obs (p, .ok s)) :
    Linked (System.rights obs) p.2.2 s := by
  refine h.invariant (P := fun obs q => ∀ s, q.2 = .ok s → Linked (System.rights obs) q.1.2.2 s)
    ?_ ?_ s rfl
  · rintro _ ⟨⟩
    exact ⟨rfl, List.nil_prefix⟩
  · rintro obs ⟨p, r⟩ ⟨e, d⟩ ⟨q, _⟩ o - hp he t rfl
    obtain ⟨hcarries, o₁, o₂, h₁, h₂, rfl⟩ := System.product_step.mp he
    obtain ⟨o', hk⟩ := stream_step h₁
    rw [System.rights_append, System.rights_map]
    cases r with
    | ok s => exact (hp s rfl).step hcarries hk h₂
    | error f => cases d <;> cases h₂

/-- No byte is lost, repeated or moved between the client and `onMessage`. -/
lemma delivered_of_run (h : (system c mine stdin).Run obs (p, .ok s)) :
    p.2.1.current.messages.flatten ++ s.toServer ++ s.client.unsent =
      (sent (System.rights obs)).flatten := by
  have hs : Sound p.2.1 p.2.2 := TcpConnection.sound_of_reachable h.fst.snd.reachable
  have hmessages := hs.delivered
  rw [← (linked_of_run h).taken, List.append_cancel_right_eq] at hmessages
  rw [hmessages]
  exact (Client.flows_of_run h.snd).sent

/-! ### Where nothing is on its way -/

/-- The loop is in `epoll_wait`, and nothing makes it return: there is no edge of the connection or
of the loop's own channel, and no call of `queueInLoop` is before its `wakeup`. -/
structure Quiet (p : EventLoop.State F × OnLoop × Stream) : Prop where
  waits : p.1.pc = .wait
  callers : ∀ t, p.1.callers t ≠ .pushed
  wakeupFd : ¬p.1.wakeupFd.Undelivered
  edge : p.2.1.edge = false
  /-- `newConnection` has called `runInLoop`. -/
  stage : p.2.1.stage ≠ .accepted

lemma Quiet.unread_eq_nil (h : Quiet p) (hr : (watch c mine inputDevice).Reachable p) :
    p.2.2.unread = [] := by
  by_contra hunread
  obtain ⟨shown, hrun⟩ := hr
  have hs : Sound p.2.1 p.2.2 := TcpConnection.sound_of_reachable hrun.snd.reachable
  cases hstage : p.2.1.stage with
  | accepted => exact h.stage hstage
  | submitted =>
    have hinit : ¬TcpConnection.Submitted inputDevice.system.init := by
      intro hsubmitted
      cases hsubmitted
    obtain ⟨f, -, -, ⟨t, ht⟩ | hwakeup⟩ := EventLoop.served_of_waiting hinit
      (fun _ _ _ _ => TcpConnection.submitted_step) hrun.reachable h.waits hstage
    · exact h.callers t ht
    · exact h.wakeupFd hwakeup
  | established =>
    have hidle := EventLoop.idle_of_wait hrun.reachable h.waits
    change p.2.1.phase = .idle at hidle
    rcases hs.heard hstage hunread with hedge | hwill
    · rw [h.edge] at hedge
      cases hedge
    · cases hthread : p.2.1.thread <;> simp [OnLoop.phase, hthread] at hidle
      rw [hthread] at hwill
      cases hwill

/-- As long as the input has no zero and has not come to its end, and the server sends its chunks
whole: the lines come to `onMessage` byte by byte in order, and the client shows their upper case.
Where the loop has nothing to wake up for and the network has nothing more for it, `onMessage` has
got every byte, and there is something to read for a client that waits for an answer. -/
theorem echo_goes_on (hzero : 0 ∉ stdin) (h : (system c mine stdin).Run obs (p, .ok s))
    (hlines : [] ∉ lines (System.rights obs)) (hfull : ∀ e ∈ served (System.rights obs), Full e) :
    p.2.1.current.messages.flatten ++ s.toServer ++ s.client.unsent =
        (lines (System.rights obs)).flatten ∧
      s.client.stdout ++ s.inFlight = (lines (System.rights obs)).flatten.map toupper ∧
      (Quiet p → p.2.2.unread = s.toServer →
        s.toServer = [] ∧ (s.client.pc = .read → s.toClient ≠ [])) := by
  have hsent := (Client.reads_of_run h.snd).sent_eq hzero hlines
  refine ⟨?_, ?_, fun hquiet hnetwork => ?_⟩
  · rw [delivered_of_run h, hsent]
  · rw [← hsent]
    exact (Client.flows_of_run h.snd).echo_iff.mpr hfull
  · have hserver : s.toServer = [] := by rw [← hnetwork, hquiet.unread_eq_nil h.fst.reachable]
    refine ⟨hserver, fun hpc hclient => ?_⟩
    exact Client.not_stuck_of_run h.snd hsent hlines hfull
      (Client.stuck_iff.mpr ⟨hpc, hserver, hclient⟩)

end Run

/-- Steps of the client alone. -/
def client (es : List Client.Event) : List (Option (Watched ℕ) × Option Client.Event) :=
  es.map fun e => (none, some e)

/-- Steps of the connection and its loop alone. -/
def connection (es : List (Watched ℕ)) : List (Option (Watched ℕ) × Option Client.Event) :=
  es.map fun e => (some e, none)

/-- The socket takes the whole of the chunk. -/
def whole (chunk : TcpConnection.Chunk) : Server.Exchange :=
  ⟨chunk, .accepted chunk.bytes.length, .accepted chunk.bytes.length⟩

/-- A `read`, and the call of `onMessage`. -/
def exchange (chunk : TcpConnection.Chunk) : Option (Watched ℕ) × Option Client.Event :=
  (some (aside (some (.read (.data chunk 1))) (some (.take chunk.bytes))),
    some (.serve (whole chunk)))

/-- A line comes in two pieces, one of them before the connection is registered, and is read in two
others. -/
theorem echo_goes_on_pieces : ∃ obs p s,
    (system 0 (some 7) [104, 105, 10]).Run obs (p, .ok s) ∧ Quiet p ∧ s.client.pc = .read ∧
      p.2.1.current.messages.flatten = [104, 105, 10] ∧ s.toClient ≠ [] := by
  have hfinal : ∃ obs p s,
      (system 0 (some 7) [104, 105, 10]).exec (system 0 (some 7) [104, 105, 10]).init
        (client [.fgets, .send 1] ++
          connection [along .loop none, along .loop none, along .loop none,
            along (.queue 1 7) (some .submit), along (.wake 1) none,
            aside none (some (.arrive [104])), along (.poll [] [] true) (some (.poll .skip)),
            along .loop none, along .loop none, along .loop none, along .loop none,
            along .loop (some (.establish true)), along .ownReturn none,
            along .loop none, along .loop none, along .loop none] ++
          client [.send 2] ++
          connection [aside (some .edge) (some (.arrive [105, 10])),
            along (.poll [0] [] false) (some (.poll (.report EPOLLIN))),
            along .loop (some .enter)] ++
          [exchange ⟨[104, 105], by simp, by simp⟩, exchange ⟨[10], by simp, by simp⟩] ++
          connection [aside (some (.read (.failed EAGAIN))) none, along .ownReturn (some .leave),
            along .loop none, along .loop none, along .loop none, along .loop none,
            along .loop none, along .loop none]) = some ((p, .ok s), obs) ∧
      (p.1.pc = .wait ∧ p.1.wakeupFd = ⟨0, false⟩ ∧ p.2.1.edge = false ∧
        p.2.1.stage = .established ∧
        p.1.callers =
          Function.update (Function.update (fun _ => .idle) 1 .pushed) 1 .idle) ∧
      p.2.2.unread = [] ∧ s.toServer = [] ∧ s.client.pc = .read ∧
      lines (System.rights obs) = [[104, 105, 10]] ∧
      served (System.rights obs) =
        [whole ⟨[104, 105], by simp, by simp⟩, whole ⟨[10], by simp, by simp⟩] :=
    ⟨_, _, _, rfl, ⟨rfl, rfl, rfl, rfl, rfl⟩, rfl, rfl, rfl, rfl, rfl⟩
  obtain ⟨obs, p, s, hexec, ⟨hwait, hwakeup, hedge, hstage, hcallers⟩, hunread, hserver, hpc,
    hlines, hserved⟩ := hfinal
  have hrun : (system 0 (some 7) [104, 105, 10]).Run obs (p, .ok s) := .of_exec _ hexec
  have hquiet : Quiet p := by
    refine ⟨hwait, fun t => ?_, by rw [hwakeup]; decide, hedge, by simp [hstage]⟩
    rw [hcallers, Function.update_idem]
    by_cases ht : t = 1 <;> simp [ht]
  have hfull : ∀ e ∈ served (System.rights obs), Full e := by
    simp [hserved, Full, whole]
  obtain ⟨hmessages, -, hanswer⟩ := echo_goes_on (by decide) hrun (by rw [hlines]; decide) hfull
  refine ⟨obs, p, s, hrun, hquiet, hpc, ?_, (hanswer hquiet (by rw [hunread, hserver])).2 hpc⟩
  rw [hserver, hlines] at hmessages
  simpa [Client.State.unsent, hpc] using hmessages

end ClwServer.Echo
