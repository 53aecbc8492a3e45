import ClwServer.Core.Cpp
import ClwServer.Net.TcpServer.Resources

/-!
# The rounds of the loops

A round of `EventLoop::loop` fills `ActiveChannels_` with plain pointers to channels, handles them
one behind the other, and runs the functors. A handler could destroy a connection whose channel
stands further behind in the batch; none does. Every run of the rounds is a run of the server, for
which a callback comes out of the interest list.

A handler goes on with its own connection until it returns, and the runs here are those in which
the connection still lives then. What a handler does with a connection that was destroyed under it
is the subject of `TcpConnection.Lifetime`.
-/

namespace ClwServer.TcpServer

open Cpp

/-- A channel, by its owner. -/
inductive Source
  | acceptor
  | wakeup
  | conn (c : ConnId)
  deriving DecidableEq

/-- Where the thread of a loop is in `EventLoop::loop`. -/
inductive Phase
  /-- In `epoll_wait`. -/
  | waiting
  /-- At the iterator; `rest` is what it has not passed. -/
  | between (rest : List Source)
  /-- In `handleEvent` of the channel of `x`. -/
  | handling (x : Source) (rest : List Source)
  /-- In `doPendingFunctors`. -/
  | functors
  deriving DecidableEq

/-- The channel that is handled. -/
def Phase.current : Phase → Option Source
  | .handling x _ => some x
  | .waiting | .between _ | .functors => none

/-- What is left of `ActiveChannels_` behind the channel that is handled. -/
def Phase.rest : Phase → List Source
  | .between rest | .handling _ rest => rest
  | .waiting | .functors => []

/-- The same, with the channel that is handled. -/
def Phase.sources (p : Phase) : List Source := p.current.toList ++ p.rest

structure Rounds (n : ℕ) where
  server : State n
  phase : Fin (n + 1) → Phase

variable {n : ℕ}

/-- The loop with the acceptor. -/
def mainLoop (n : ℕ) : Fin (n + 1) := ⟨0, Nat.succ_pos n⟩

/-- The channel of `c` is in the interest list of the loop `l`. -/
def Registered (s : State n) (l : Fin (n + 1)) (c : ConnId) : Prop :=
  ∃ k ∈ s.conns c, k.loop = l ∧ k.registered = true

instance (s : State n) (l : Fin (n + 1)) (c : ConnId) : Decidable (Registered s l c) :=
  inferInstanceAs (Decidable (∃ k ∈ s.conns c, k.loop = l ∧ k.registered = true))

/-- The kernel may report the channel to the loop `l`. -/
def Reported (s : State n) (l : Fin (n + 1)) : Source → Prop
  | .acceptor => l = mainLoop n
  | .wakeup => True
  | .conn c => Registered s l c

instance (s : State n) (l : Fin (n + 1)) (x : Source) : Decidable (Reported s l x) := by
  cases x <;> unfold Reported <;> infer_instance

/-- The connection is not destroyed. -/
def Alive (s : State n) (c : ConnId) : Prop := ∃ k ∈ s.conns c, k.alive = true

instance (s : State n) (c : ConnId) : Decidable (Alive s c) :=
  inferInstanceAs (Decidable (∃ k ∈ s.conns c, k.alive = true))

/-- `(*it)->handleEvent()`, for a pointer that may be a wild one. -/
def handleEvent (s : State n) (l : Fin (n + 1)) : Source → Except Fault (State n)
  | .acceptor | .wakeup => .ok s
  | .conn c =>
    match s.conns c with
    | some k => if k.alive then .ok (setPc s l (.callback c)) else .error .destroyed
    | none => .error .destroyed

namespace Rounds

inductive Event (n : ℕ)
  /-- `epoll_wait` of the loop `l` returns, with one pointer to each channel that is ready. -/
  | epollWait (l : Fin (n + 1)) (active : List Source)
  /-- The loop `l` calls `handleEvent` of the next channel. -/
  | handleEvent (l : Fin (n + 1))
  /-- This call returns. -/
  | returns (l : Fin (n + 1))
  /-- A step in a handler, in `doPendingFunctors` or of the application. -/
  | server (e : TcpServer.Event n)

/-- The loops are at the right place for the step `e` of the server. The calls of handlers, and
their returns, are events of their own. -/
def Allowed (b : Rounds n) : TcpServer.Event n → Prop
  | .accept _ | .create _ _ => (b.phase (mainLoop n)).current = some .acceptor
  | .callback _ _ | .leave _ => False
  | .swap l => b.phase l = .between []
  | .close _ | .next _ | .keep _ | .drop _ | .destroy _ => True

instance (b : Rounds n) (e : TcpServer.Event n) : Decidable (b.Allowed e) := by
  cases e <;> unfold Allowed <;> infer_instance

/-- Where the loops are behind the step `e` of the server, which leads to `t`. -/
def phaseAfter (b : Rounds n) (t : State n) : TcpServer.Event n → Fin (n + 1) → Phase
  | .swap l => Function.update b.phase l .functors
  | .next l =>
    if b.phase l = .functors ∧ (t.loops l).pc = .idle then Function.update b.phase l .waiting
    else b.phase
  | _ => b.phase

def goto (b : Rounds n) (l : Fin (n + 1)) (p : Phase) : Rounds n :=
  { b with phase := Function.update b.phase l p }

def call (b : Rounds n) : Event n → Option (Except Fault (Rounds n × List Obs))
  | .epollWait l active =>
    if b.phase l = .waiting ∧ active.Nodup ∧ ∀ x ∈ active, Reported b.server l x then
      some (.ok (b.goto l (.between active), []))
    else
      none
  | .handleEvent l =>
    match b.phase l with
    | .between (x :: rest) =>
      some ((TcpServer.handleEvent b.server l x).map fun s =>
        ({ b.goto l (.handling x rest) with server := s }, []))
    | _ => none
  | .returns l =>
    match b.phase l with
    | .handling (.conn c) rest =>
      -- up to its end `handleEvent` reads members of the channel
      if Alive b.server c then
        (step b.server (.leave l)).map fun p =>
          .ok ({ b.goto l (.between rest) with server := p.1 }, p.2)
      else
        none
    | .handling _ rest =>
      if (b.server.loops l).pc = .idle then some (.ok (b.goto l (.between rest), [])) else none
    | _ => none
  | .server e =>
    if b.Allowed e then
      (step b.server e).map fun p => .ok (⟨p.1, b.phaseAfter p.1 e⟩, p.2)
    else
      none

/-- The server with the rounds of its loops. -/
def system (n : ℕ) : System (Except Fault (Rounds n)) (Event n) Obs :=
  System.faulting ⟨init n, fun _ => .waiting⟩ call

end Rounds

variable {s t : State n} {l i : Fin (n + 1)} {c d : ConnId} {obs o : List Obs}

/-! ### The thread that takes a step -/

/-- Where a step takes the thread of the loop `l`. -/
inductive Goes : Event n → Fin (n + 1) → Pc → Pc → Prop
  | accept (fd : ℕ) : Goes (.accept fd) 0 .idle (.accepted fd)
  | create (c : ConnId) (l : Fin (n + 1)) (fd : ℕ) :
      Goes (.create c l) 0 (.accepted fd) (.inserted c)
  | callback (l : Fin (n + 1)) (c : ConnId) : Goes (.callback l c) l .idle (.callback c)
  | close (l : Fin (n + 1)) (c : ConnId) : Goes (.close l) l (.callback c) (.closing c)
  | leave (l : Fin (n + 1)) (c : ConnId) : Goes (.leave l) l (.callback c) .idle
  | swap (l : Fin (n + 1)) : Goes (.swap l) l .idle .functors
  | establish (l : Fin (n + 1)) (c : ConnId) : Goes (.next l) l (.inserted c) (.returning c)
  | returnNew (l : Fin (n + 1)) (c : ConnId) : Goes (.next l) l (.returning c) .idle
  | erase (l : Fin (n + 1)) (c : ConnId) : Goes (.next l) l (.closing c) (.erased c)
  | disconnect (l : Fin (n + 1)) (c : ConnId) : Goes (.next l) l (.erased c) (.closed c)
  | returnClose (l : Fin (n + 1)) (c : ConnId) : Goes (.next l) l (.closed c) (.callback c)
  | run (l : Fin (n + 1)) : Goes (.next l) l .functors .functors
  | batchDone (l : Fin (n + 1)) : Goes (.next l) l .functors .idle

/-- A step moves one thread, or it is one of the application. -/
lemma goes_of_step {e : Event n} (h : step s e = some (t, o)) :
    (∃ l pc, Goes e l (s.loops l).pc pc ∧
      ∀ i, (t.loops i).pc = if i = l then pc else (s.loops i).pc) ∨
    (∀ i, (t.loops i).pc = (s.loops i).pc) ∧
      ((∃ c, e = .keep c) ∨ (∃ c, e = .drop c) ∨ ∃ c, e = .destroy c) := by
  cases e with
  | keep d | drop d =>
    simp only [step] at h
    split at h <;> cases h
    exact .inr ⟨fun _ => rfl, by simp⟩
  | destroy d =>
    simp only [step] at h
    split at h
    · split at h <;> cases h
      exact .inr ⟨fun _ => rfl, by simp⟩
    · cases h
  | accept fd =>
    simp only [step] at h
    split at h <;> cases h
    rename_i hguard
    exact .inl ⟨0, _, by rw [hguard.1]; exact .accept fd, pc_setPc 0⟩
  | create d l =>
    simp only [step] at h
    split at h <;> cases h
    rename_i fd hpc _
    exact .inl ⟨0, _, by rw [hpc]; exact .create d l fd, pc_setPc 0⟩
  | callback l d =>
    simp only [step] at h
    split at h
    · split at h <;> cases h
      rename_i hguard
      exact .inl ⟨l, _, by rw [hguard.1]; exact .callback l d, pc_setPc l⟩
    · cases h
  | close l =>
    simp only [step] at h
    split at h
    · rename_i d hpc
      split at h <;> cases h
      exact .inl ⟨l, _, by rw [hpc]; exact .close l d, pc_setPc l⟩
    · cases h
  | leave l =>
    simp only [step] at h
    split at h <;> cases h
    rename_i d hpc
    exact .inl ⟨l, _, by rw [hpc]; exact .leave l d, pc_setPc l⟩
  | swap l =>
    simp only [step] at h
    split at h <;> cases h
    rename_i hpc
    exact .inl ⟨l, _, by rw [hpc]; exact .swap l, pc_setLoop l⟩
  | next l =>
    left
    change next s l = some (t, o) at h
    simp only [next] at h
    cases hpc : (s.loops l).pc with
    | inserted d =>
      simp only [hpc] at h
      obtain ⟨k, -, heq⟩ := Option.map_eq_some_iff.mp h
      cases heq
      refine ⟨l, _, by rw [hpc]; exact .establish l d, fun i => ?_⟩
      rw [pc_setPc, pc_runInLoop]
    | erased d =>
      simp only [hpc] at h
      obtain ⟨k, -, heq⟩ := Option.map_eq_some_iff.mp h
      cases heq
      refine ⟨l, _, by rw [hpc]; exact .disconnect l d, fun i => ?_⟩
      rw [pc_setPc, pc_runInLoop]
    | closing d =>
      simp only [hpc] at h
      obtain ⟨k, -, heq⟩ := Option.map_eq_some_iff.mp h
      cases heq
      exact ⟨l, _, by rw [hpc]; exact .erase l d, pc_setPc l⟩
    | returning d =>
      simp only [hpc, Option.some.injEq, Prod.mk.injEq] at h
      obtain ⟨rfl, -⟩ := h
      exact ⟨l, _, by rw [hpc]; exact .returnNew l d, pc_setPc l⟩
    | closed d =>
      simp only [hpc, Option.some.injEq, Prod.mk.injEq] at h
      obtain ⟨rfl, -⟩ := h
      exact ⟨l, _, by rw [hpc]; exact .returnClose l d, pc_setPc l⟩
    | functors =>
      simp only [hpc] at h
      cases htodo : (s.loops l).todo with
      | nil =>
        simp only [htodo, Option.some.injEq, Prod.mk.injEq] at h
        obtain ⟨rfl, -⟩ := h
        exact ⟨l, _, by rw [hpc]; exact .batchDone l, pc_setLoop l⟩
      | cons task todo =>
        simp only [htodo, Option.some.injEq] at h
        obtain rfl : _ = t := congrArg Prod.fst h
        refine ⟨l, _, by rw [hpc]; exact .run l, fun i => ?_⟩
        rw [pc_runTask, pc_setLoop]
    | idle | accepted | callback => simp only [hpc, reduceCtorEq] at h

/-! ### What stays registered -/

lemma registered_updateConn {f : Conn n → Conn n} (h : Registered s l c)
    (hloop : ∀ k, (f k).loop = k.loop)
    (hreg : d = c → ∀ k, k.registered = true → (f k).registered = true) :
    Registered (updateConn s d f) l c := by
  obtain ⟨k, hk, rfl, hk'⟩ := h
  by_cases hdc : d = c
  · subst hdc
    refine ⟨f k, ?_, hloop k, hreg rfl k hk'⟩
    rw [Option.mem_def] at hk ⊢
    simp [updateConn, hk]
  · refine ⟨k, ?_, rfl, hk'⟩
    simpa [updateConn, Ne.symm hdc] using hk

lemma registered_runTask {task : Task} (h : Registered s l c)
    (htask : task ≠ .connectDestroyed c) : Registered (runTask s task).1 l c := by
  cases task with
  | connectEstablished d => exact registered_updateConn h (fun _ => rfl) fun _ _ _ => rfl
  | connectDestroyed d =>
    refine registered_updateConn h (fun _ => rfl) fun hdc => ?_
    subst hdc
    exact absurd rfl htask

lemma registered_runInLoop {l' : Fin (n + 1)} {task : Task} (h : Registered s l c)
    (htask : task ≠ .connectDestroyed c) : Registered (runInLoop s i l' task).1 l c := by
  rcases runInLoop_cases s i l' task with heq | heq <;> rw [heq]
  · exact registered_runTask h htask
  · exact h

/-- A channel leaves the interest list where its own loop removes the connection. -/
lemma Move.registered (hm : Move s t o) (hconf : Confined s) (h : Registered s l c)
    (hpc : (s.loops l).pc ≠ .erased c) : Registered t l c := by
  cases hm with
  | create d l' fd hpc' hd =>
    obtain ⟨k, hk, hkl⟩ := h
    refine ⟨k, ?_, hkl⟩
    have hne : c ≠ d := by
      rintro rfl
      rw [hk] at hd
      cases hd
    simpa [hne] using hk
  | establish l' d k hpc' hk => exact registered_runInLoop h nofun
  | disconnect l' d k hpc' hk =>
    refine registered_runInLoop h ?_
    rintro ⟨⟩
    obtain ⟨k', hk', rfl, -⟩ := h
    have hloop := hconf.loop_eq hk' (l := l') (by rw [hpc']; rfl)
    rw [← hloop] at hpc'
    exact hpc hpc'
  | run l' task todo hpc' htodo =>
    refine registered_runTask h ?_
    rintro rfl
    obtain ⟨d, hd, -⟩ := hconf.tasks l' (.connectDestroyed c) (by simp [Loop.tasks, htodo])
    cases hd
  | keep | drop | destroy =>
    refine registered_updateConn h ?_ ?_
    · exact fun _ => rfl
    · exact fun _ _ hreg => hreg
  | accept | returnNew | callback | close | erase | returnClose | leave | swap | batchDone =>
    exact h

/-! ### The invariant -/

/-- The thread is between two callbacks of the acceptor. -/
def Pc.Accepting : Pc → Prop
  | .idle | .accepted _ | .inserted _ | .returning _ => True
  | .callback _ | .closing _ | .erased _ | .closed _ | .functors => False

/-- What the thread of the loop `l` does in a phase. -/
inductive Stands (l : Fin (n + 1)) : Phase → Pc → Prop
  | waiting : Stands l .waiting .idle
  | between (rest : List Source) : Stands l (.between rest) .idle
  | acceptor (rest : List Source) (pc : Pc) (h : pc.Accepting) :
      Stands l (.handling .acceptor rest) pc
  | wakeup (rest : List Source) : Stands l (.handling .wakeup rest) .idle
  | conn (c : ConnId) (rest : List Source) (pc : Pc) (h : pc.handled = some c) :
      Stands l (.handling (.conn c) rest) pc
  | functors : Stands l .functors .functors

structure Rounds.Sound (b : Rounds n) : Prop where
  stands : ∀ l, Stands l (b.phase l) (b.server.loops l).pc
  /-- What is to be handled is in the interest list. -/
  rest : ∀ l, ∀ c, .conn c ∈ (b.phase l).rest → Registered b.server l c
  /-- No channel is handled twice in a round. -/
  nodup : ∀ l, (b.phase l).sources.Nodup

lemma Stands.phase_eq {p : Phase} {pc : Pc} (h : Stands l p pc) (hpc : pc.handled = some c) :
    ∃ rest, p = .handling (.conn c) rest := by
  cases h with
  | conn d rest pc hd =>
    obtain rfl : d = c := Option.some.inj (hd.symm.trans hpc)
    exact ⟨rest, rfl⟩
  | acceptor rest pc hacc => cases pc <;> first | exact False.elim hacc | cases hpc
  | waiting | between | wakeup | functors => cases hpc

/-- Outside of `handleEvent` of a connection and of `doPendingFunctors` the thread may only be in
the acceptor. -/
lemma Stands.current_eq {p : Phase} {pc : Pc} (h : Stands l p pc) (hnone : pc.handled = none)
    (hidle : pc ≠ .idle) (hfunctors : pc ≠ .functors) : ∃ rest, p = .handling .acceptor rest := by
  cases h with
  | acceptor rest => exact ⟨rest, rfl⟩
  | conn d rest pc hd =>
    rw [hnone] at hd
    cases hd
  | waiting | between | wakeup => exact absurd rfl hidle
  | functors => exact absurd rfl hfunctors

lemma Stands.idle {p : Phase} {pc : Pc} (h : Stands l p pc)
    (hp : p = .waiting ∨ ∃ rest, p = .between rest) : pc = .idle := by
  cases h with
  | waiting | between | wakeup => rfl
  | acceptor | conn | functors => simp at hp

lemma Stands.functors_eq {p : Phase} (h : Stands l p .functors) : p = .functors := by
  cases h with
  | acceptor rest pc hacc => exact False.elim hacc
  | conn d rest pc hd => cases hd
  | functors => rfl

namespace Rounds

variable {b : Rounds n} {phase : Fin (n + 1) → Phase}

lemma sound_init : Sound ⟨init n, fun _ => .waiting⟩ where
  stands := fun _ => .waiting
  rest := fun _ _ h => by cases h
  nodup := fun _ => List.nodup_nil

/-- A step of the server, where the loops do not go back in their batches. -/
lemma Sound.move (hs : b.Sound) (hconf : Confined b.server) (hm : Move b.server t o)
    (hstands : ∀ l, Stands l (phase l) (t.loops l).pc)
    (hrest : ∀ l, (phase l).rest ⊆ (b.phase l).rest)
    (hnodup : ∀ l, (phase l).sources.Nodup) : Sound ⟨t, phase⟩ where
  stands := hstands
  rest := by
    intro l c hc
    have hmem := hrest l hc
    apply hm.registered hconf (hs.rest l c hmem)
    intro hpc
    -- the thread would be in the handler of `c`, which it has passed
    obtain ⟨rest, hphase⟩ := (hs.stands l).phase_eq (c := c) (by rw [hpc]; rfl)
    have hunique := hs.nodup l
    rw [hphase] at hunique hmem
    exact (List.nodup_cons.mp hunique).1 hmem
  nodup := hnodup

/-- A step of the thread of one loop, which goes on in its round. -/
lemma Sound.moveTo {p : Phase} (hs : b.Sound) (hconf : Confined b.server)
    (hm : Move b.server t o) (hothers : ∀ i ≠ l, (t.loops i).pc = (b.server.loops i).pc)
    (hstands : Stands l p (t.loops l).pc) (hrest : p.rest ⊆ (b.phase l).rest)
    (hnodup : p.sources.Nodup) : Sound ⟨t, Function.update b.phase l p⟩ := by
  apply hs.move hconf hm
  · refine (Function.forall_update_iff b.phase fun i p => Stands i p (t.loops i).pc).mpr
      ⟨hstands, fun i hi => ?_⟩
    rw [hothers i hi]
    exact hs.stands i
  · exact (Function.forall_update_iff b.phase fun i p => p.rest ⊆ (b.phase i).rest).mpr
      ⟨hrest, fun i _ => List.Subset.refl _⟩
  · exact (Function.forall_update_iff b.phase fun _ p => p.sources.Nodup).mpr
      ⟨hnodup, fun i _ => hs.nodup i⟩

/-- A loop goes on in its round, with no step of the server. -/
lemma Sound.goto {p : Phase} (hs : b.Sound) (hstands : Stands l p (b.server.loops l).pc)
    (hrest : ∀ c, .conn c ∈ p.rest → Registered b.server l c) (hnodup : p.sources.Nodup) :
    (b.goto l p).Sound where
  stands := (Function.forall_update_iff b.phase fun i p =>
    Stands i p (b.server.loops i).pc).mpr ⟨hstands, fun i _ => hs.stands i⟩
  rest := (Function.forall_update_iff b.phase fun i p =>
    ∀ c, .conn c ∈ p.rest → Registered b.server i c).mpr ⟨hrest, fun i _ => hs.rest i⟩
  nodup := (Function.forall_update_iff b.phase fun _ p => p.sources.Nodup).mpr
    ⟨hnodup, fun i _ => hs.nodup i⟩

/-! ### The steps of the server -/

lemma phaseAfter_of_ne {e : TcpServer.Event n} {pc pc' : Pc} (hg : Goes e l pc pc')
    (hi : i ≠ l) : b.phaseAfter t e i = b.phase i := by
  cases hg with
  | swap => exact Function.update_of_ne hi ..
  | establish | returnNew | erase | disconnect | returnClose | run | batchDone =>
    simp only [phaseAfter]
    split
    · exact Function.update_of_ne hi ..
    · rfl
  | accept | create | callback | close | leave => rfl

/-- A step of the server leaves the batches as they are, or finds its own empty. -/
lemma phaseAfter_cases (e : TcpServer.Event n) (i : Fin (n + 1)) :
    b.phaseAfter t e i = b.phase i ∨ (b.phaseAfter t e i).sources = [] := by
  cases e with
  | swap l =>
    simp only [phaseAfter, Function.update_apply]
    split
    · exact .inr rfl
    · exact .inl rfl
  | next l =>
    simp only [phaseAfter]
    split
    · rw [Function.update_apply]
      split
      · exact .inr rfl
      · exact .inl rfl
    · exact .inl rfl
  | accept | create | callback | close | leave | keep | drop | destroy => exact .inl rfl

lemma stands_after {e : TcpServer.Event n} {pc pc' : Pc} (hs : Stands l (b.phase l) pc)
    (hg : Goes e l pc pc') (he : b.Allowed e) (ht : (t.loops l).pc = pc') :
    Stands l (b.phaseAfter t e l) pc' := by
  have hother (hphase : b.phase l ≠ .functors) : b.phaseAfter t (.next l) l = b.phase l := by
    rw [phaseAfter, if_neg fun h => hphase h.1]
  cases hg with
  | callback | leave => exact he.elim
  | swap => simpa [phaseAfter] using Stands.functors
  | accept fd | create d l fd =>
    simp only [Allowed] at he
    change Stands 0 (b.phase (mainLoop n)) _
    cases hphase : b.phase (mainLoop n) with
    | handling x rest =>
      rw [hphase] at he
      cases he
      exact .acceptor rest _ trivial
    | waiting | between | functors =>
      rw [hphase] at he
      cases he
  | close l c =>
    obtain ⟨rest, hphase⟩ := hs.phase_eq (c := c) rfl
    change Stands l (b.phase l) _
    rw [hphase]
    exact .conn c rest _ rfl
  | erase l c | disconnect l c | returnClose l c =>
    obtain ⟨rest, hphase⟩ := hs.phase_eq (c := c) rfl
    rw [hother (by rw [hphase]; nofun), hphase]
    exact .conn c rest _ rfl
  | establish l c | returnNew l c =>
    obtain ⟨rest, hphase⟩ := hs.current_eq rfl nofun nofun
    rw [hother (by rw [hphase]; nofun), hphase]
    exact .acceptor rest _ trivial
  | run =>
    rw [phaseAfter, if_neg]
    · exact hs
    · rw [ht]
      exact nofun
  | batchDone =>
    rw [phaseAfter, if_pos ⟨hs.functors_eq, ht⟩, Function.update_self]
    exact .waiting

lemma Sound.server {e : TcpServer.Event n} (hs : b.Sound) (hconf : Confined b.server)
    (he : b.Allowed e) (hstep : step b.server e = some (t, o)) :
    Sound ⟨t, b.phaseAfter t e⟩ := by
  apply hs.move hconf (.of_step hstep)
  · intro i
    rcases goes_of_step hstep with ⟨l, pc, hg, hpc⟩ | ⟨hpc, happ⟩
    · by_cases hi : i = l
      · subst hi
        have hself := hpc i
        rw [if_pos rfl] at hself
        rw [hself]
        exact stands_after (hs.stands i) hg he hself
      · rw [hpc i, if_neg hi, phaseAfter_of_ne hg hi]
        exact hs.stands i
    · rw [hpc i]
      rcases happ with ⟨c, rfl⟩ | ⟨c, rfl⟩ | ⟨c, rfl⟩ <;> exact hs.stands i
  · intro i
    rcases phaseAfter_cases (b := b) (t := t) e i with heq | hnil
    · rw [heq]
      exact List.Subset.refl _
    · rw [(List.append_eq_nil_iff.mp hnil).2]
      exact List.nil_subset _
  · intro i
    rcases phaseAfter_cases (b := b) (t := t) e i with heq | hnil
    · rw [heq]
      exact hs.nodup i
    · rw [hnil]
      exact List.nodup_nil

/-! ### The rounds -/

/-- A channel of the batch is there when its turn comes, and its handler is a callback of a
registered connection. -/
lemma handleEvent_conn (hr : (TcpServer.system n).Reachable b.server)
    (hpc : (b.server.loops l).pc = .idle) (hreg : Registered b.server l c) :
    handleEvent b.server l (.conn c) = .ok (setPc b.server l (.callback c)) ∧
      (TcpServer.system n).step b.server (.callback l c) =
        some (setPc b.server l (.callback c), []) := by
  obtain ⟨k, hk, hloop, hk'⟩ := hreg
  rw [Option.mem_def] at hk
  have halive := (alive_of_registered hr hk hk').1
  constructor
  · simp [handleEvent, hk, halive]
  · simp [TcpServer.system, step, hk, hpc, hloop, hk']

/-- An event is no fault, and it is a step of the server, or none. -/
lemma call_spec {e : Event n} {r : Except Fault (Rounds n × List Obs)}
    (hr : (TcpServer.system n).Run obs b.server) (hs : b.Sound) (hcall : call b e = some r) :
    ∃ u o, r = .ok (u, o) ∧ (TcpServer.system n).Run (obs ++ o) u.server ∧ u.Sound := by
  have hconf := confined_of_reachable hr.reachable
  have hquiet : (TcpServer.system n).Run (obs ++ []) b.server := by rwa [List.append_nil]
  cases e with
  | epollWait l active =>
    simp only [call] at hcall
    split at hcall <;> cases hcall
    rename_i hguard
    obtain ⟨hphase, hnodup, hactive⟩ := hguard
    refine ⟨_, [], rfl, hquiet, hs.goto ?_ ?_ hnodup⟩
    · rw [(hs.stands l).idle (.inl hphase)]
      exact .between active
    · intro c hc
      exact hactive _ hc
  | handleEvent l =>
    simp only [call] at hcall
    split at hcall <;> cases hcall
    rename_i x rest hphase
    have hpc := (hs.stands l).idle (.inr ⟨_, hphase⟩)
    have hunique := hs.nodup l
    rw [hphase] at hunique
    have hrest : ∀ c, .conn c ∈ x :: rest → Registered b.server l c := by
      intro c hc
      apply hs.rest l c
      rwa [hphase]
    cases x with
    | acceptor =>
      refine ⟨_, [], rfl, hquiet, hs.goto ?_ ?_ hunique⟩
      · rw [hpc]
        exact .acceptor rest _ trivial
      · exact fun c hc => hrest c (List.mem_cons_of_mem _ hc)
    | wakeup =>
      refine ⟨_, [], rfl, hquiet, hs.goto ?_ ?_ hunique⟩
      · rw [hpc]
        exact .wakeup rest
      · exact fun c hc => hrest c (List.mem_cons_of_mem _ hc)
    | conn c =>
      obtain ⟨hhandle, hstep⟩ := handleEvent_conn hr.reachable hpc (hrest c (by simp))
      refine ⟨⟨setPc b.server l (.callback c), Function.update b.phase l (.handling (.conn c) rest)⟩,
        [], by rw [hhandle]; rfl, hr.step hstep, ?_⟩
      apply hs.moveTo (p := .handling (.conn c) rest) hconf (.of_step hstep) ?_ ?_ ?_ hunique
      · intro i hi
        rw [pc_setPc, if_neg hi]
      · rw [pc_setPc, if_pos rfl]
        exact .conn c rest _ rfl
      · rw [hphase]
        exact List.subset_cons_self ..
  | returns l =>
    simp only [call] at hcall
    split at hcall
    · rename_i c rest hphase
      obtain ⟨-, hcall⟩ := Option.ite_none_right_eq_some.mp hcall
      obtain ⟨⟨t, o⟩, hstep, rfl⟩ := Option.map_eq_some_iff.mp hcall
      change (TcpServer.system n).step b.server (.leave l) = _ at hstep
      have hunique := hs.nodup l
      rw [hphase] at hunique
      refine ⟨⟨t, Function.update b.phase l (.between rest)⟩, o, rfl,
        hr.step hstep, ?_⟩
      have hm := Move.of_step hstep
      change step b.server (.leave l) = _ at hstep
      simp only [step] at hstep
      split at hstep <;> cases hstep
      apply hs.moveTo (p := .between rest) hconf hm ?_ ?_ ?_ (List.nodup_cons.mp hunique).2
      · intro i hi
        rw [pc_setPc, if_neg hi]
      · rw [pc_setPc, if_pos rfl]
        exact .between rest
      · rw [hphase]
        exact List.Subset.refl _
    · rename_i x rest hconn hphase
      split at hcall <;> cases hcall
      rename_i hpc
      have hunique := hs.nodup l
      rw [hphase] at hunique
      refine ⟨_, [], rfl, hquiet, hs.goto ?_ ?_ (List.nodup_cons.mp hunique).2⟩
      · rw [hpc]
        exact .between rest
      · intro c hc
        apply hs.rest l c
        rwa [hphase]
    · cases hcall
  | server e =>
    simp only [call] at hcall
    split at hcall
    · rename_i he
      obtain ⟨⟨t, o⟩, hstep, rfl⟩ := Option.map_eq_some_iff.mp hcall
      exact ⟨_, o, rfl, hr.step hstep, hs.server hconf he hstep⟩
    · cases hcall

/-- In every run of the server with the rounds of its loops, whose handlers keep their connections
until they return, no loop takes a dangling pointer from its batch; and the run is one of the
server, where a callback comes out of the interest list. In every state, what is left of a batch is
in the interest list of the loop, and alive. -/
theorem rounds_refine {r : Except Fault (Rounds n)} (h : (system n).Run obs r) :
    ∃ b, r = .ok b ∧ (TcpServer.system n).Run obs b.server ∧
      ∀ l c, .conn c ∈ (b.phase l).rest →
        ∃ k, b.server.conns c = some k ∧ k.loop = l ∧ k.registered = true ∧ k.alive = true := by
  obtain ⟨b, rfl, hr, hs⟩ : ∃ b, r = .ok b ∧ (TcpServer.system n).Run obs b.server ∧ b.Sound := by
    refine h.invariant (P := fun obs r => ∃ b, r = .ok b ∧
      (TcpServer.system n).Run obs b.server ∧ b.Sound) ⟨_, rfl, .init, sound_init⟩ ?_
    rintro obs r e r' o - ⟨b, rfl, hr, hs⟩ he
    exact System.faulting_step_safe he fun c hc => call_spec hr hs hc
  refine ⟨b, rfl, hr, fun l c hc => ?_⟩
  obtain ⟨k, hk, hloop, hreg⟩ := hs.rest l c hc
  exact ⟨k, hk, hloop, hreg, (alive_of_registered hr.reachable hk hreg).1⟩

/-- One loop has two connections in its batch. The handler of the first keeps a copy until it has
returned, and then the connection is destroyed. -/
theorem rounds_refine_two : ∃ obs b, (system 0).Run obs (.ok b) ∧
    (∃ k, b.server.conns 0 = some k ∧ k.alive = false) ∧ b.phase 0 = .between [.conn 1] ∧
      (TcpServer.system 0).Run obs b.server ∧
      ∃ k, b.server.conns 1 = some k ∧ k.loop = 0 ∧ k.registered = true ∧ k.alive = true := by
  obtain ⟨obs, b, k, hexec, hk, halive, hphase⟩ : ∃ obs b k, (system 0).exec (system 0).init
      [.epollWait 0 [.acceptor], .handleEvent 0, .server (.accept 5), .server (.create 0 0),
        .server (.next 0), .server (.next 0), .server (.accept 6), .server (.create 1 0),
        .server (.next 0), .server (.next 0), .returns 0, .server (.swap 0), .server (.next 0),
        .epollWait 0 [.conn 0, .conn 1], .handleEvent 0, .server (.keep 0), .server (.close 0),
        .server (.next 0), .server (.next 0), .server (.next 0), .returns 0, .server (.drop 0),
        .server (.destroy 0)] = some (.ok b, obs) ∧
      b.server.conns 0 = some k ∧ k.alive = false ∧ b.phase 0 = .between [.conn 1] :=
    ⟨_, _, _, rfl, rfl, rfl, rfl⟩
  have hrun : (system 0).Run obs (.ok b) := .of_exec _ hexec
  obtain ⟨b', hb, hserver, hrest⟩ := rounds_refine hrun
  cases hb
  refine ⟨obs, b, hrun, ⟨k, hk, halive⟩, hphase, hserver, hrest 0 1 ?_⟩
  rw [hphase]
  exact List.mem_singleton_self _

/-- A handler whose connection is destroyed under it has no way back. -/
example : ∃ obs b, (system 0).exec (system 0).init
    [.epollWait 0 [.acceptor], .handleEvent 0, .server (.accept 5), .server (.create 0 0),
      .server (.next 0), .server (.next 0), .returns 0, .server (.swap 0), .server (.next 0),
      .epollWait 0 [.conn 0], .handleEvent 0, .server (.close 0), .server (.next 0),
      .server (.next 0), .server (.next 0), .server (.destroy 0)] = some (.ok b, obs) ∧
    call b (.returns 0) = none := ⟨_, _, rfl, rfl⟩

end Rounds

end ClwServer.TcpServer
