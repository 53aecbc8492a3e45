import ClwServer.Net.Acceptor
import ClwServer.Net.EventLoop.Watch

/-!
# The acceptor and its loop

The listening socket on the loop of the acceptor. `Socket::Socket` makes it without
`SOCK_NONBLOCK`, and the flag in `Socket::accept` is one of the new descriptor. The clients of a
schedule connect in its order, each at any time.
-/

namespace ClwServer.Acceptor

open Posix
open EventLoop (Phase Port Device watch)

/-- Where the loop thread is with the acceptor. -/
inductive Thread
  | idle
  | listed
  /-- In the call of `accept` of a turn of `handleRead`. -/
  | accepting (s : State)
  /-- Behind the loop of `handleRead`. -/
  | returned (s : State)

/-- The listening socket, and the loop thread. -/
structure Listener where
  nonBlocking : Bool
  /-- The clients that have still to connect. -/
  schedule : List SockaddrIn
  /-- The connections that `accept` has still to take. -/
  backlog : List SockaddrIn
  /-- The channel is in the ready list of epoll. -/
  edge : Bool
  acceptor : State
  thread : Thread

inductive Event
  /-- The next client connects. -/
  | arrive
  | poll (reported : Bool)
  | enter
  /-- `accept4` returns. -/
  | accept (o : Accept4)
  | leave

/-- `Socket::Socket`, `bind` and `listen`. -/
def listen (clients : List SockaddrIn) : Listener where
  nonBlocking := SOCK_STREAM.nonBlocking
  schedule := clients
  backlog := []
  edge := false
  acceptor := start
  thread := .idle

/-- What `accept4` can return. On a blocking socket it waits for a connection. -/
def Returns (t : Listener) : Accept4 → Prop
  | .accepted _ peer => t.backlog.head? = some peer
  | .failed e =>
    if e = EAGAIN then t.nonBlocking = true ∧ t.backlog = []
    else t.nonBlocking = true ∨ t.backlog ≠ []

instance (t : Listener) : ∀ o, Decidable (Returns t o)
  | .accepted _ peer => inferInstanceAs (Decidable (t.backlog.head? = some peer))
  | .failed e => inferInstanceAs (Decidable (if e = EAGAIN then _ else _))

/-- The backlog behind a return of `accept4`. -/
def backlogAfter (t : Listener) : Accept4 → List SockaddrIn
  | .accepted _ _ => t.backlog.tail
  | .failed _ => t.backlog

/-- Where a turn of `handleRead` leads. -/
def Thread.after : Turn State → Thread
  | .again s => .accepting s
  | .leave s => .returned s

def step (installed : Bool) (t : Listener) : Event → Option Listener
  | .arrive =>
    match t.schedule with
    | p :: ps => some { t with schedule := ps, backlog := t.backlog ++ [p], edge := true }
    | [] => none
  | .poll reported =>
    match t.thread, reported with
    | .idle, true =>
      if t.edge = true ∧ t.backlog ≠ [] then some { t with edge := false, thread := .listed }
      else none
    | .idle, false => some t
    | _, _ => none
  | .enter =>
    match t.thread with
    | .listed => some { t with thread := .accepting t.acceptor }
    | _ => none
  | .accept o =>
    match t.thread with
    | .accepting s =>
      if Returns t o then
        some { t with backlog := backlogAfter t o, thread := .after (turn installed s o) }
      else
        none
    | _ => none
  | .leave =>
    match t.thread with
    | .returned s => some { t with acceptor := s, thread := .idle }
    | _ => none

def Listener.phase (t : Listener) : Phase :=
  match t.thread with
  | .idle => .idle
  | .listed => .listed
  | .accepting _ | .returned _ => .handling

def Event.port : Event → Port
  | .arrive => .env
  | .poll reported => .poll reported
  | .enter => .enter
  | .accept _ => .inside
  | .leave => .leave

variable {installed : Bool} {clients : List SockaddrIn} {t t' : Listener}

lemma goes_of_step {e : Event} (h : step installed t e = some t') :
    e.port.Goes t.phase t'.phase := by
  cases e with
  | arrive =>
    simp only [step] at h
    split at h <;> cases h
    exact rfl
  | poll reported =>
    simp only [step] at h
    split at h
    · rename_i hidle
      split at h <;> cases h
      exact ⟨by simp [Listener.phase, hidle], rfl⟩
    · rename_i hidle
      cases h
      have hphase : t.phase = .idle := by simp [Listener.phase, hidle]
      exact ⟨hphase, hphase⟩
    · cases h
  | enter =>
    simp only [step] at h
    split at h <;> cases h
    rename_i hlisted
    exact ⟨by simp [Listener.phase, hlisted], rfl⟩
  | accept o =>
    simp only [step] at h
    split at h
    · rename_i s haccepting
      split at h <;> cases h
      refine ⟨by simp [Listener.phase, haccepting], ?_⟩
      cases hturn : turn installed s o <;> simp [Listener.phase, Thread.after]
    · cases h
  | leave =>
    simp only [step] at h
    split at h <;> cases h
    rename_i hreturned
    exact ⟨by simp [Listener.phase, hreturned], rfl⟩

/-- The acceptor on its loop. The schedule of the clients is `clients`. -/
def device (installed : Bool) (clients : List SockaddrIn) : Device Listener Event Unit where
  system :=
    { init := listen clients
      step := fun t e => (step installed t e).map (·, []) }
  phase := Listener.phase
  port := Event.port
  starts := rfl
  goes := by
    intro t t' e o h
    obtain ⟨u, hu, heq⟩ := Option.map_eq_some_iff.mp h
    cases heq
    exact goes_of_step hu

/-- The loop thread is blocked in `accept`. -/
def Blocked (t : Listener) : Prop :=
  (∃ s, t.thread = .accepting s) ∧ t.nonBlocking = false ∧ t.backlog = []

variable {F : Type} [DecidableEq F]

/-! ### Without clients -/

/-- Nobody has connected, and nobody will. -/
structure Quiet (t : Listener) : Prop where
  schedule : t.schedule = []
  backlog : t.backlog = []
  thread : t.thread = .idle

lemma Quiet.step {e : Event} (hq : Quiet t) (h : step installed t e = some t') : Quiet t' := by
  cases e with
  | arrive => simp [Acceptor.step, hq.schedule] at h
  | poll reported =>
    cases reported
    · simp only [Acceptor.step, hq.thread, Option.some.injEq] at h
      exact h ▸ hq
    · simp [Acceptor.step, hq.thread, hq.backlog] at h
  | enter | accept | leave => simp [Acceptor.step, hq.thread] at h

lemma quiet_of_reachable {p : EventLoop.State F × Listener}
    (h : (watch 0 none (device installed [])).Reachable p) : Quiet p.2 := by
  obtain ⟨obs, hrun⟩ := h
  refine hrun.snd.reachable.invariant (P := Quiet) ⟨rfl, rfl, rfl⟩ fun _ _ _ _ _ hq he => ?_
  obtain ⟨u, hu, heq⟩ := Option.map_eq_some_iff.mp he
  cases heq
  exact hq.step hu

/-! ### With a client -/

/-- No turn of `handleRead` is its last one. -/
lemma step_accept {s : State} {o : Accept4} (hthread : t.thread = .accepting s)
    (ho : Returns t o) : step installed t (.accept o) =
      some { t with backlog := backlogAfter t o
                    thread := .accepting (afterTurn installed s o) } := by
  rw [step, hthread]
  simp only [if_pos ho, turn_eq]
  rfl

lemma accepting_step {s : State} {e : Event} (hs : t.thread = .accepting s)
    (h : step installed t e = some t') : ∃ s', t'.thread = .accepting s' := by
  cases e with
  | arrive =>
    simp only [step] at h
    split at h <;> cases h
    exact ⟨s, hs⟩
  | accept o =>
    simp only [step, hs] at h
    split at h <;> cases h
    exact ⟨_, congrArg Thread.after (turn_eq installed s o)⟩
  | poll | enter | leave => simp [step, hs] at h

/-- The loop enters `handleRead` for the first client, and takes its connection. -/
lemma exists_blocked (F : Type) [DecidableEq F] (installed : Bool) (peer : SockaddrIn)
    (peers : List SockaddrIn) :
    ∃ p : EventLoop.State F × Listener,
      (watch 0 none (device installed (peer :: peers))).Reachable p ∧ Blocked p.2 := by
  obtain ⟨p, obs, hexec, hnested, hown, hthread, hblocking, hbacklog⟩ :
      ∃ (p : EventLoop.State F × Listener) (obs : _),
        (watch 0 none (device installed (peer :: peers))).exec
          (watch 0 none (device installed (peer :: peers))).init
          [(some .loop, none), (some .loop, none), (some .loop, none), (none, some .arrive),
            (some (.poll [0] [] false), some (.poll true)), (some .loop, some .enter)] =
              some (p, obs) ∧
        p.1.nested = [] ∧ p.1.own = .idle ∧ p.2.thread = .accepting start ∧
          p.2.nonBlocking = false ∧ p.2.backlog = [peer] :=
    ⟨_, _, rfl, rfl, rfl, rfl, rfl, rfl⟩
  have hreturns : Returns p.2 (.accepted 5 peer) := by simp [Returns, hbacklog]
  have hstep : (device installed (peer :: peers)).system.step p.2 (.accept (.accepted 5 peer)) =
      some (_, []) := congrArg (Option.map (·, [])) (step_accept hthread hreturns)
  exact ⟨_, ((System.Run.of_exec _ hexec).step
    (EventLoop.watch_inside rfl hnested hown hstep)).reachable, ⟨_, rfl⟩, hblocking,
    congrArg List.tail hbacklog⟩

/-- `handleRead` is never left: once the loop thread is in it, it stays there. -/
lemma handling_forever {p q : EventLoop.State F × Listener} {obs : List (EventLoop.Obs F ⊕ Unit)}
    (h : (watch 0 none (device installed clients)).Reachable p) {s : State}
    (hs : p.2.thread = .accepting s)
    (hsteps : (watch 0 none (device installed clients)).Steps p obs q) :
    ∃ rest, q.1.pc = .callback rest := by
  have hstays : ∃ s, q.2.thread = .accepting s := by
    refine hsteps.snd.invariant (P := fun _ t => ∃ s, t.thread = .accepting s) ⟨s, hs⟩
      fun _ _ _ _ _ _ ht he => ?_
    obtain ⟨s, hs⟩ := ht
    obtain ⟨u, hu, heq⟩ := Option.map_eq_some_iff.mp he
    cases heq
    exact accepting_step hs hu
  obtain ⟨s', hs'⟩ := hstays
  obtain ⟨obs', hrun⟩ := h
  have hplaced := EventLoop.placed_of_reachable (hrun.trans hsteps).reachable
  exact hplaced.handling (by simp [device, Listener.phase, hs'])

/-- The loop thread is never blocked in `accept` if and only if no client ever connects. -/
theorem never_blocked_iff (clients : List SockaddrIn) :
    (∀ p : EventLoop.State F × Listener,
      (watch 0 none (device installed clients)).Reachable p → ¬Blocked p.2) ↔ clients = [] := by
  constructor
  · intro h
    cases clients with
    | nil => rfl
    | cons peer peers =>
      obtain ⟨p, hp, hblocked⟩ := exists_blocked F installed peer peers
      exact absurd hblocked (h p hp)
  · rintro rfl p hp ⟨⟨s, hs⟩, -⟩
    have hidle := (quiet_of_reachable hp).thread
    rw [hs] at hidle
    cases hidle

/-- One client connects. -/
theorem blocked_by_one_client :
    let peer : SockaddrIn := ⟨⟨127, 0, 0, 1⟩, 40000⟩
    ∃ p : EventLoop.State ℕ × Listener,
      (watch 0 none (device true [peer])).Reachable p ∧ Blocked p.2 :=
  exists_blocked ℕ true _ []

end ClwServer.Acceptor
