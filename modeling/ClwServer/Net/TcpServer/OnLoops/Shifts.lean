import ClwServer.Net.TcpServer.OnLoops.Basic

/-!
# What the server does to its loops

Of each of its loops the server knows the phase of the round and the functors of its own. An event
shifts this view of one loop, as the port of the event says, and leaves the other loops as they
are.
-/

namespace ClwServer.TcpServer

open Cpp
open EventLoop (Chan)

variable {n : ℕ}

/-! ### What the server knows of a loop -/

structure View where
  phase : Phase
  pendingFunctors : List Task
  todo : List Task

def Rounds.view (b : Rounds n) (l : Fin (n + 1)) : View :=
  ⟨b.phase l, (b.server.loops l).pendingFunctors, (b.server.loops l).todo⟩

/-- What the server and a loop do together, as the server sees it. -/
inductive Shifts : Option Port → View → View → Prop
  | stay (v : View) : Shifts none v v
  /-- The loop's own channel has no handler of the server; its `handleEvent` is the loop's. -/
  | own (rest : List Source) (pending todo : List Task) :
      Shifts none ⟨.between (.wakeup :: rest), pending, todo⟩
        ⟨.handling .wakeup rest, pending, todo⟩
  | poll (active : List Source) (pending todo : List Task) :
      Shifts (some (.poll (active.map Source.chan))) ⟨.waiting, pending, todo⟩
        ⟨.between active, pending, todo⟩
  | enter (x : Source) (hx : x ≠ .wakeup) (rest : List Source) (pending todo : List Task) :
      Shifts (some .enter) ⟨.between (x :: rest), pending, todo⟩ ⟨.handling x rest, pending, todo⟩
  | leave (x : Source) (hx : x ≠ .wakeup) (rest : List Source) (pending todo : List Task) :
      Shifts (some .leave) ⟨.handling x rest, pending, todo⟩ ⟨.between rest, pending, todo⟩
  | wakeup (rest : List Source) (pending todo : List Task) :
      Shifts (some .wakeup) ⟨.handling .wakeup rest, pending, todo⟩
        ⟨.between rest, pending, todo⟩
  | swap (pending todo : List Task) :
      Shifts (some .swap) ⟨.between [], pending, todo⟩ ⟨.functors, [], pending⟩
  | run (task : Task) (pending todo : List Task) :
      Shifts (some (.run (some task))) ⟨.functors, pending, task :: todo⟩
        ⟨.functors, pending, todo⟩
  | batchDone (pending : List Task) :
      Shifts (some (.run none)) ⟨.functors, pending, []⟩ ⟨.waiting, pending, []⟩
  | direct (task : Task) (v : View) : Shifts (some (.direct task)) v v
  | queue (t : ℕ) (task : Task) (phase : Phase) (pending todo : List Task) :
      Shifts (some (.queue (some t) task)) ⟨phase, pending, todo⟩
        ⟨phase, pending ++ [task], todo⟩

variable {s t : State n} {l i : Fin (n + 1)} {o : List Obs} {b b' : Rounds n}

/-! ### The server -/

/-- What the loop `i` has to do with the event. -/
def Rounds.portAt (b : Rounds n) (e : Rounds.Event n) (i : Fin (n + 1)) : Option Port :=
  (b.port e).bind fun x => if x.1 = i then some x.2 else none

lemma pending_setPc {pc : Pc} :
    ((setPc s l pc).loops i).pendingFunctors = (s.loops i).pendingFunctors := by
  simp only [setPc, setLoop, Function.update_apply]
  split
  · rename_i hi
    rw [hi]
  · rfl

lemma todo_setPc {pc : Pc} : ((setPc s l pc).loops i).todo = (s.loops i).todo := by
  simp only [setPc, setLoop, Function.update_apply]
  split
  · rename_i hi
    rw [hi]
  · rfl

namespace Rounds

variable {e : Event n}

lemma view_goto (b : Rounds n) (l i : Fin (n + 1)) (p : Phase) :
    (b.goto l p).view i = if i = l then { b.view i with phase := p } else b.view i := by
  simp only [goto, view, Function.update_apply]
  split <;> rfl

/-- An event that only one loop takes part in. -/
lemma shifts_of_port {p : Port} (hport : b.port e = some (l, p))
    (hl : Shifts (some p) (b.view l) (b'.view l)) (hothers : ∀ i ≠ l, b'.view i = b.view i)
    (i : Fin (n + 1)) : Shifts (b.portAt e i) (b.view i) (b'.view i) := by
  rw [portAt, hport, Option.bind_some]
  by_cases hi : i = l
  · subst hi
    rw [if_pos rfl]
    exact hl
  · rw [if_neg (Ne.symm hi), hothers i hi]
    exact .stay _

/-- An event of the server alone. -/
lemma shifts_of_none (hport : b.port e = none) (hall : ∀ i, b'.view i = b.view i)
    (i : Fin (n + 1)) : Shifts (b.portAt e i) (b.view i) (b'.view i) := by
  rw [portAt, hport, Option.bind_none, hall i]
  exact .stay _

/-- A handler does not touch the queues when it is called. -/
lemma queues_handleEvent {x : Source} (h : handleEvent s l x = .ok t) :
    (t.loops i).pendingFunctors = (s.loops i).pendingFunctors ∧
      (t.loops i).todo = (s.loops i).todo := by
  cases x with
  | acceptor | wakeup =>
    cases h
    exact ⟨rfl, rfl⟩
  | conn c =>
    simp only [handleEvent] at h
    split at h
    · split at h <;> cases h
      exact ⟨pending_setPc, todo_setPc⟩
    · cases h

lemma shifts_handleEvent (hcall : call b (.handleEvent l) = some (.ok (b', o)))
    (i : Fin (n + 1)) : Shifts (b.portAt (.handleEvent l) i) (b.view i) (b'.view i) := by
  simp only [call] at hcall
  split at hcall
  · rename_i x rest hphase
    obtain ⟨t, ht, rfl⟩ : ∃ t, handleEvent b.server l x = .ok t ∧
        b' = { b.goto l (.handling x rest) with server := t } := by
      cases hhandle : handleEvent b.server l x with
      | ok t =>
        rw [hhandle] at hcall
        cases hcall
        exact ⟨t, rfl, rfl⟩
      | error f =>
        rw [hhandle] at hcall
        cases hcall
    have hview : ∀ i, ({ b.goto l (.handling x rest) with server := t } : Rounds n).view i =
        (b.goto l (.handling x rest)).view i := by
      intro i
      obtain ⟨hpending, htodo⟩ := queues_handleEvent (i := i) ht
      simp only [view, hpending, htodo]
      rfl
    by_cases hx : x = .wakeup
    · subst hx
      have hport : b.port (.handleEvent l) = none := by simp only [port, hphase]
      rw [portAt, hport, Option.bind_none, hview, view_goto]
      split
      · rename_i hi
        subst hi
        simp only [view, hphase]
        exact .own rest _ _
      · exact .stay _
    · have hport : b.port (.handleEvent l) = some (l, .enter) := by
        simp only [port, hphase]
        cases x with
        | wakeup => exact absurd rfl hx
        | acceptor | conn => rfl
      refine shifts_of_port hport ?_ (fun i hi => by rw [hview, view_goto, if_neg hi]) i
      rw [hview, view_goto, if_pos rfl]
      simp only [view, hphase]
      exact .enter x hx rest _ _
  · cases hcall

lemma shifts_returns (hcall : call b (.returns l) = some (.ok (b', o))) (i : Fin (n + 1)) :
    Shifts (b.portAt (.returns l) i) (b.view i) (b'.view i) := by
  simp only [call] at hcall
  split at hcall
  · rename_i c rest hphase
    obtain ⟨-, hcall⟩ := Option.ite_none_right_eq_some.mp hcall
    obtain ⟨⟨t, o'⟩, hstep, heq⟩ := Option.map_eq_some_iff.mp hcall
    cases heq
    simp only [step] at hstep
    split at hstep <;> cases hstep
    have hview : ∀ i, ({ b.goto l (.between rest) with
        server := setPc b.server l .idle } : Rounds n).view i =
          (b.goto l (.between rest)).view i := by
      intro i
      simp only [view, pending_setPc, todo_setPc]
      rfl
    have hport : b.port (.returns l) = some (l, .leave) := by simp only [port, hphase]
    refine shifts_of_port hport ?_ (fun i hi => by rw [hview, view_goto, if_neg hi]) i
    rw [hview, view_goto, if_pos rfl]
    simp only [view, hphase]
    exact .leave (.conn c) (by simp) rest _ _
  · rename_i x rest hconn hphase
    split at hcall <;> cases hcall
    have hport : b.port (.returns l) = some (l, if x = .wakeup then .wakeup else .leave) := by
      simp only [port, hphase]
      cases x <;> rfl
    refine shifts_of_port hport ?_ (fun i hi => by rw [view_goto, if_neg hi]) i
    rw [view_goto, if_pos rfl]
    simp only [view, hphase]
    split
    · rename_i hx
      subst hx
      exact .wakeup rest _ _
    · rename_i hx
      exact .leave x hx rest _ _
  · cases hcall

/-! ### The steps of the server -/

/-- A thread that moves outside of `doPendingFunctors` stays in its phase. -/
lemma phaseAfter_next (hs : b.Sound) (hpc : (b.server.loops l).pc ≠ .functors) :
    b.phaseAfter t (.next l) = b.phase := by
  rw [phaseAfter, if_neg]
  rintro ⟨hphase, -⟩
  have hstands := hs.stands l
  rw [hphase] at hstands
  generalize (b.server.loops l).pc = pc at hstands hpc
  cases hstands
  exact hpc rfl

/-- `runInLoop` runs the functor, or puts it into the queue of the other loop. -/
lemma shifts_handOver {current : Fin (n + 1)} {task : Task} {pc : Pc}
    (hport : b.port e = some (handOver current l task)) (i : Fin (n + 1)) :
    Shifts (b.portAt e i) (b.view i)
      (view ⟨setPc (runInLoop b.server current l task).1 current pc, b.phase⟩ i) := by
  by_cases hl : l = current
  · subst hl
    rw [handOver, if_pos rfl] at hport
    have hview : ∀ i, view ⟨setPc (runInLoop b.server l l task).1 l pc, b.phase⟩ i = b.view i := by
      intro i
      simp only [view, pending_setPc, todo_setPc, runInLoop, if_pos]
      cases task <;> rfl
    refine shifts_of_port hport ?_ (fun i _ => hview i) i
    rw [hview]
    exact .direct task _
  · rw [handOver, if_neg hl] at hport
    have hview : ∀ i, view ⟨setPc (runInLoop b.server current l task).1 current pc, b.phase⟩ i =
        view ⟨queueInLoop b.server l task, b.phase⟩ i := by
      intro i
      simp only [view, pending_setPc, todo_setPc, runInLoop, if_neg hl]
    refine shifts_of_port hport ?_ (fun i hi => ?_) i
    · rw [hview]
      simp only [view, queueInLoop, setLoop, Function.update_self]
      exact .queue _ task _ _ _
    · rw [hview]
      simp only [view, queueInLoop, setLoop, Function.update_of_ne hi]

lemma shifts_next (hs : b.Sound) (hstep : next b.server l = some (t, o)) (i : Fin (n + 1)) :
    Shifts (b.portAt (.server (.next l)) i) (b.view i)
      (view ⟨t, b.phaseAfter t (.next l)⟩ i) := by
  simp only [next] at hstep
  cases hpc : (b.server.loops l).pc with
  | inserted c | erased c =>
    rw [phaseAfter_next hs (by simp [hpc])]
    simp only [hpc] at hstep
    obtain ⟨k, hk, heq⟩ := Option.map_eq_some_iff.mp hstep
    cases heq
    refine shifts_handOver ?_ i
    simp only [port, hpc, hk]
    rfl
  | returning c | closed c =>
    rw [phaseAfter_next hs (by simp [hpc])]
    simp only [hpc, Option.some.injEq, Prod.mk.injEq] at hstep
    obtain ⟨rfl, -⟩ := hstep
    refine shifts_of_none (by simp only [port, hpc]) (fun i => ?_) i
    simp only [view, pending_setPc, todo_setPc]
  | closing c =>
    rw [phaseAfter_next hs (by simp [hpc])]
    simp only [hpc] at hstep
    obtain ⟨k, hk, heq⟩ := Option.map_eq_some_iff.mp hstep
    cases heq
    refine shifts_of_none (by simp only [port, hpc]) (fun i => ?_) i
    simp only [view, pending_setPc, todo_setPc]
  | functors =>
    have hstands := hs.stands l
    rw [hpc] at hstands
    have hphase := hstands.functors_eq
    simp only [hpc] at hstep
    cases htodo : (b.server.loops l).todo with
    | nil =>
      simp only [htodo, Option.some.injEq, Prod.mk.injEq] at hstep
      obtain ⟨rfl, -⟩ := hstep
      rw [phaseAfter, if_pos ⟨hphase, by simp only [setLoop, Function.update_self]⟩]
      refine shifts_of_port (p := .run none) (by simp only [port, hpc, htodo]; rfl) ?_ ?_ i
      · simp only [view, setLoop, Function.update_self, hphase, htodo]
        exact .batchDone _
      · intro i hi
        simp only [view, setLoop, Function.update_of_ne hi]
    | cons task todo =>
      simp only [htodo, Option.some.injEq] at hstep
      obtain rfl : _ = t := congrArg Prod.fst hstep
      have hloops : ∀ u : State n, (runTask u task).1.loops = u.loops := by
        intro u
        cases task <;> rfl
      -- the thread is still in the batch
      rw [phaseAfter, if_neg fun h => by simp [hloops, setLoop] at h]
      refine shifts_of_port (p := .run (some task)) (by simp only [port, hpc, htodo]; rfl) ?_ ?_ i
      · simp only [view, hloops, setLoop, Function.update_self, hphase, htodo]
        exact .run task _ todo
      · intro i hi
        simp only [view, hloops, setLoop, Function.update_of_ne hi]
  | idle | accepted | callback => simp only [hpc, reduceCtorEq] at hstep

lemma shifts_server {e : TcpServer.Event n} (hs : b.Sound) (he : b.Allowed e)
    (hstep : step b.server e = some (t, o)) (i : Fin (n + 1)) :
    Shifts (b.portAt (.server e) i) (b.view i) (view ⟨t, b.phaseAfter t e⟩ i) := by
  cases e with
  | callback | leave => exact he.elim
  | next l => exact shifts_next hs hstep i
  | swap l =>
    simp only [step] at hstep
    split at hstep <;> cases hstep
    refine shifts_of_port (p := .swap) rfl ?_ ?_ i
    · have hphase : b.phase l = .between [] := he
      simp only [view, phaseAfter, setLoop, Function.update_self, hphase]
      exact .swap _ _
    · intro i hi
      simp only [view, phaseAfter, setLoop, Function.update_of_ne hi]
  | accept fd =>
    simp only [step] at hstep
    split at hstep <;> cases hstep
    refine shifts_of_none rfl (fun i => ?_) i
    simp only [view, phaseAfter, pending_setPc, todo_setPc]
  | create c l =>
    simp only [step] at hstep
    split at hstep <;> cases hstep
    refine shifts_of_none rfl (fun i => ?_) i
    simp only [view, phaseAfter, pending_setPc, todo_setPc]
  | close l =>
    simp only [step] at hstep
    split at hstep
    · split at hstep <;> cases hstep
      refine shifts_of_none rfl (fun i => ?_) i
      simp only [view, phaseAfter, pending_setPc, todo_setPc]
    · cases hstep
  | keep c | drop c =>
    simp only [step] at hstep
    split at hstep <;> cases hstep
    exact shifts_of_none rfl (fun _ => rfl) i
  | destroy c =>
    simp only [step] at hstep
    split at hstep
    · split at hstep <;> cases hstep
      exact shifts_of_none rfl (fun _ => rfl) i
    · cases hstep

/-- An event does to each loop what the port of the event says. -/
lemma shifts_of_call (hs : b.Sound) (hcall : call b e = some (.ok (b', o))) (i : Fin (n + 1)) :
    Shifts (b.portAt e i) (b.view i) (b'.view i) := by
  cases e with
  | handleEvent l => exact shifts_handleEvent hcall i
  | returns l => exact shifts_returns hcall i
  | epollWait l active =>
    simp only [call] at hcall
    split at hcall <;> cases hcall
    rename_i hguard
    refine shifts_of_port rfl ?_ (fun i hi => by rw [view_goto, if_neg hi]) i
    rw [view_goto, if_pos rfl]
    simp only [view, hguard.1]
    exact .poll active _ _
  | server e =>
    simp only [call] at hcall
    split at hcall
    · rename_i he
      obtain ⟨⟨t, o'⟩, hstep, heq⟩ := Option.map_eq_some_iff.mp hcall
      cases heq
      exact shifts_server hs he hstep i
    · cases hcall

end Rounds

end ClwServer.TcpServer
