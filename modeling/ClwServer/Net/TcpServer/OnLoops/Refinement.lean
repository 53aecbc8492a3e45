import ClwServer.Net.TcpServer.OnLoops.Shifts

/-!
# The loops of a server refine those of its model

The event loop and the server's view of it make the same shifts at each port, so that they stay
together in every run: the queue and the batch of a loop are those of the server, with functors
of the application in between, and the loop thread is where the server has it.
-/

namespace ClwServer.TcpServer

open Cpp
open EventLoop (Chan)

variable {n : ℕ}

/-! ### The loops -/

/-- The loop thread is between two rounds, or behind the last. -/
def OutsideRound : EventLoop.Pc → Prop
  | .enter | .clearQuit | .test | .wait | .clearPending | .leave | .done => True
  | .dispatch _ | .callback _ | .setPending | .swap | .functors | .functor => False

/-- Where a loop thread is in a phase of the server. -/
inductive Fits : Phase → EventLoop.Pc → Prop
  | outside (pc : EventLoop.Pc) (h : OutsideRound pc) : Fits .waiting pc
  | between (rest : List Source) : Fits (.between rest) (.dispatch (rest.map Source.chan))
  | setPending : Fits (.between []) .setPending
  | swap : Fits (.between []) .swap
  | handling (x : Source) (hx : x ≠ .wakeup) (rest : List Source) :
      Fits (.handling x rest) (.callback (rest.map Source.chan))
  | wakeup (rest : List Source) :
      Fits (.handling .wakeup rest) (.dispatch (.wakeup :: rest.map Source.chan))
  | functors : Fits .functors .functors
  | functor : Fits .functors .functor

/-- The loop stands as the server sees it. -/
structure Matches (v : View) (s : EventLoop.State LoopFunctor) : Prop where
  fits : Fits v.phase s.pc
  pending : tasksOf s.pendingFunctors = v.pendingFunctors
  todo : tasksOf s.tempFunctors = v.todo

/-- The events of a loop that the server takes part in. -/
inductive Takes (s : EventLoop.State LoopFunctor) : EventLoop.Event LoopFunctor → Port → Prop
  | poll (before after : List ℕ) (scan : Bool) (active : List Chan)
      (h : EventLoop.reported s before after scan = active) :
      Takes s (.poll before after scan) (.poll active)
  | wakeup (rest : List Chan) (hpc : s.pc = .dispatch (.wakeup :: rest)) : Takes s .loop .wakeup
  | enter (id : ℕ) (rest : List Chan) (hpc : s.pc = .dispatch (.user id :: rest)) :
      Takes s .loop .enter
  | leave (rest : List Chan) (hnested : s.nested = []) (hpc : s.pc = .callback rest) :
      Takes s .ownReturn .leave
  | swap (hpc : s.pc = .swap) : Takes s .loop .swap
  | run (task : Task) (fs : List LoopFunctor) (hpc : s.pc = .functors)
      (htemp : s.tempFunctors = .ofServer task :: fs) : Takes s .loop (.run (some task))
  | batchDone (hpc : s.pc = .functors) (htemp : s.tempFunctors = []) :
      Takes s .loop (.run none)
  | direct (task : Task) : Takes s (.ownRun (.ofServer task)) (.direct task)
  | ownQueue (task : Task) : Takes s (.ownQueue (.ofServer task)) (.queue none task)
  | queue (t : ℕ) (task : Task) : Takes s (.queue t (.ofServer task)) (.queue (some t) task)

variable {v v' : View} {u u' : EventLoop.State LoopFunctor} {d : EventLoop.Event LoopFunctor}
  {q : List (EventLoop.Obs LoopFunctor)}

lemma takes_of_loopPort {p : Port} (h : loopPort u d = some p) : Takes u d p := by
  cases d with
  | poll before after scan =>
    cases h
    exact .poll before after scan _ rfl
  | loop =>
    simp only [loopPort] at h
    split at h <;> cases h
    · exact .wakeup _ ‹_›
    · exact .enter _ _ ‹_›
    · exact .swap ‹_›
    · exact .run _ _ ‹_› ‹_›
    · exact .batchDone ‹_› ‹_›
  | ownReturn =>
    simp only [loopPort] at h
    split at h <;> cases h
    exact .leave _ ‹_› ‹_›
  | ownRun f =>
    cases f <;> cases h
    exact .direct _
  | ownQueue f =>
    cases f <;> cases h
    exact .ownQueue _
  | queue t f =>
    cases f <;> cases h
    exact .queue _ _
  | ownWake | ownQuit | quit | wake => cases h

@[simp] lemma tasksOf_append (fs gs : List LoopFunctor) :
    tasksOf (fs ++ gs) = tasksOf fs ++ tasksOf gs :=
  List.filterMap_append

lemma Fits.phase_eq {p : Phase} {pc : EventLoop.Pc} (h : Fits p pc) (hpc : OutsideRound pc) :
    p = .waiting := by
  cases h with
  | outside => rfl
  | between | setPending | swap | handling | wakeup | functors | functor => exact False.elim hpc

/-- The batch has been handled. -/
lemma Fits.between_of_dispatch_nil {p : Phase} (h : Fits p (.dispatch [])) : p = .between [] := by
  generalize hpc : EventLoop.Pc.dispatch [] = pc at h
  cases h with
  | between rest =>
    rw [List.map_eq_nil_iff.mp (EventLoop.Pc.dispatch.inj hpc).symm]
  | outside _ h =>
    rw [← hpc] at h
    exact h.elim
  | setPending | swap | handling | wakeup | functors | functor => cases hpc

/-- The server moves alone. -/
lemma Matches.shift (h : Matches v u) (hshift : Shifts none v v') : Matches v' u := by
  cases hshift with
  | stay => exact h
  | own rest pending todo =>
    obtain ⟨hfits, hpending, htodo⟩ := h
    refine ⟨?_, hpending, htodo⟩
    generalize u.pc = pc at hfits
    cases hfits
    exact .wakeup rest

/-- Both move. -/
lemma Matches.together {p : Port} (h : Matches v u) (htakes : Takes u d p)
    (hstep : EventLoop.step u d = some (u', q)) (hshift : Shifts (some p) v v') :
    Matches v' u' := by
  obtain ⟨hfits, hpending, htodo⟩ := h
  generalize hu : u.pc = pc at hfits
  cases hshift with
  | poll active =>
    cases htakes with
    | poll before after scan _ hactive =>
      simp only [EventLoop.step] at hstep
      split at hstep <;> cases hstep
      rw [hactive]
      exact ⟨.between active, hpending, htodo⟩
  | enter x hx rest =>
    cases htakes with
    | enter id rest' hpc =>
      simp only [EventLoop.step, EventLoop.loop, hpc] at hstep
      split at hstep <;> cases hstep
      cases hfits
      rw [hpc] at hu
      obtain ⟨-, rfl⟩ := List.cons.inj (EventLoop.Pc.dispatch.inj hu)
      exact ⟨.handling x hx rest, hpending, htodo⟩
  | leave x hx rest =>
    cases htakes with
    | leave rest' hnested hpc =>
      simp only [EventLoop.step, EventLoop.leaveUserCode, hnested, hpc] at hstep
      split at hstep <;> cases hstep
      cases hfits with
      | wakeup => exact absurd rfl hx
      | handling =>
        rw [hpc] at hu
        cases hu
        exact ⟨.between rest, hpending, htodo⟩
  | wakeup rest =>
    cases htakes with
    | wakeup rest' hpc =>
      simp only [EventLoop.step, EventLoop.loop, hpc] at hstep
      split at hstep <;> cases hstep
      cases hfits with
      | handling _ hx => exact absurd rfl hx
      | wakeup =>
        rw [hpc] at hu
        cases hu
        exact ⟨.between rest, hpending, htodo⟩
  | swap =>
    cases htakes with
    | swap hpc =>
      simp only [EventLoop.step, EventLoop.loop, hpc] at hstep
      split at hstep <;> cases hstep
      exact ⟨.functors, rfl, hpending⟩
  | run task pending todo =>
    cases htakes with
    | run _ fs hpc htemp =>
      simp only [EventLoop.step, EventLoop.loop, hpc, htemp] at hstep
      split at hstep <;> cases hstep
      rw [htemp] at htodo
      exact ⟨.functor, hpending, (List.cons.inj htodo).2⟩
  | batchDone =>
    cases htakes with
    | batchDone hpc htemp =>
      simp only [EventLoop.step, EventLoop.loop, hpc, htemp] at hstep
      split at hstep <;> cases hstep
      exact ⟨.outside _ trivial, hpending, rfl⟩
  | direct task =>
    cases htakes with
    | direct =>
      simp only [EventLoop.step] at hstep
      split at hstep <;> cases hstep
      exact ⟨hu ▸ hfits, hpending, htodo⟩
  | queue t task =>
    cases htakes with
    | queue =>
      simp only [EventLoop.step] at hstep
      split at hstep <;> cases hstep
      refine ⟨hu ▸ hfits, ?_, htodo⟩
      rw [EventLoop.setCaller_pendingFunctors, EventLoop.push_pendingFunctors, tasksOf_append,
        hpending]
      rfl

/-- The loop moves alone. -/
lemma Matches.alone (h : Matches v u) (hport : loopPort u d = none)
    (hstep : EventLoop.step u d = some (u', q)) : Matches v u' := by
  obtain ⟨phase, pending, todo⟩ := v
  obtain ⟨hfits, hpending, htodo⟩ := h
  cases d with
  | poll => cases hport
  | loop =>
    simp only [EventLoop.step] at hstep
    split at hstep
    · cases hpc : u.pc with
      | enter | clearQuit | test | clearPending | leave =>
        rw [hpc] at hfits
        obtain rfl := hfits.phase_eq trivial
        simp only [EventLoop.loop, hpc, Option.some.injEq, Prod.mk.injEq] at hstep
        obtain ⟨rfl, -⟩ := hstep
        refine ⟨.outside _ ?_, hpending, htodo⟩
        first | trivial | (dsimp only; split <;> trivial)
      | dispatch active =>
        cases active with
        | nil =>
          rw [hpc] at hfits
          obtain rfl := hfits.between_of_dispatch_nil
          simp only [EventLoop.loop, hpc, Option.some.injEq, Prod.mk.injEq] at hstep
          obtain ⟨rfl, -⟩ := hstep
          exact ⟨.setPending, hpending, htodo⟩
        | cons c rest => cases c <;> simp [loopPort, hpc] at hport
      | setPending =>
        rw [hpc] at hfits
        cases hfits with
        | outside _ h => exact h.elim
        | setPending =>
          simp only [EventLoop.loop, hpc, Option.some.injEq, Prod.mk.injEq] at hstep
          obtain ⟨rfl, -⟩ := hstep
          exact ⟨.swap, hpending, htodo⟩
      | functors =>
        rw [hpc] at hfits
        cases htemp : u.tempFunctors with
        | nil => simp [loopPort, hpc, htemp] at hport
        | cons f fs =>
          cases f with
          | ofServer task => simp [loopPort, hpc, htemp] at hport
          | ofUser id =>
            simp only [EventLoop.loop, hpc, htemp, Option.some.injEq, Prod.mk.injEq] at hstep
            obtain ⟨rfl, -⟩ := hstep
            rw [htemp] at htodo
            cases hfits with
            | outside _ h => exact h.elim
            | functors => exact ⟨.functor, hpending, htodo⟩
      | swap => simp [loopPort, hpc] at hport
      | wait | callback | functor | done => simp only [EventLoop.loop, hpc, reduceCtorEq] at hstep
    · cases hstep
  | ownReturn =>
    simp only [EventLoop.step, EventLoop.leaveUserCode] at hstep
    obtain ⟨w, hw, heq⟩ := Option.map_eq_some_iff.mp hstep
    cases heq
    split at hw
    · cases hnested : u.nested with
      | cons f fs =>
        simp only [hnested, Option.some.injEq] at hw
        exact hw ▸ ⟨hfits, hpending, htodo⟩
      | nil =>
        cases hpc : u.pc with
        | callback => simp [loopPort, hpc, hnested] at hport
        | functor =>
          simp only [hnested, hpc, Option.some.injEq] at hw
          rw [hpc] at hfits
          cases hfits with
          | outside _ h => exact h.elim
          | functor => exact hw ▸ ⟨.functors, hpending, htodo⟩
        | _ => simp only [hnested, hpc, reduceCtorEq] at hw
    · cases hw
  | ownQueue f | queue t f =>
    cases f with
    | ofServer task => cases hport
    | ofUser id =>
      simp only [EventLoop.step] at hstep
      split at hstep <;> cases hstep
      refine ⟨hfits, ?_, htodo⟩
      simp only [EventLoop.setCaller_pendingFunctors, EventLoop.push_pendingFunctors,
        tasksOf_append, hpending]
      exact List.append_nil _
  | ownRun f | ownQuit | quit t =>
    simp only [EventLoop.step] at hstep
    split at hstep <;> cases hstep
    exact ⟨hfits, hpending, htodo⟩
  | ownWake =>
    simp only [EventLoop.step] at hstep
    split at hstep <;> cases hstep
    split <;> exact ⟨hfits, hpending, htodo⟩
  | wake t =>
    simp only [EventLoop.step] at hstep
    split at hstep <;> cases hstep <;> exact ⟨hfits, hpending, htodo⟩

/-! ### The server on its loops -/

section Together

variable {b b' : Rounds n} {o : List Obs} {loops loops' : Fin (n + 1) → EventLoop.State LoopFunctor}
  {e : Option (Rounds.Event n)}
  {x : Option (Fin (n + 1) × EventLoop.Event LoopFunctor)}
  {shown : List (Fin (n + 1) × EventLoop.Obs LoopFunctor)}

/-- Every step keeps all loops as the server sees them. -/
lemma matches_step (hs : b.Sound) (h : ∀ l, Matches (b.view l) (loops l))
    (hjoint : Together b loops e x)
    (he : (Rounds.system n).stepOr (.ok b) e = some (.ok b', o))
    (hx : (System.family (Fin (n + 1)) (EventLoop.system LoopFunctor)).stepOr loops x =
      some (loops', shown)) (l : Fin (n + 1)) : Matches (b'.view l) (loops' l) := by
  obtain ⟨hport, hboth, -, -⟩ := hjoint
  cases x with
  | none =>
    cases hx
    cases e with
    | none =>
      cases he
      exact h l
    | some e =>
      have hcall := System.faulting_step_ok.mp he
      have hshift := Rounds.shifts_of_call hs hcall l
      rw [Option.bind_some, Option.bind_none] at hport
      rw [Rounds.portAt, hport, Option.bind_none] at hshift
      exact (h l).shift hshift
  | some x =>
    obtain ⟨i, d⟩ := x
    obtain ⟨u, q, hstep, rfl, -⟩ := System.family_step.mp hx
    rw [Option.bind_some] at hport
    cases e with
    | none =>
      cases he
      rw [Option.bind_none] at hport
      by_cases hl : l = i
      · subst hl
        rw [Function.update_self]
        exact (h l).alone (Option.map_eq_none_iff.mp hport.symm) hstep
      · rw [Function.update_of_ne hl]
        exact h l
    | some e =>
      have hcall := System.faulting_step_ok.mp he
      have hshift := Rounds.shifts_of_call hs hcall l
      obtain ⟨y, hy⟩ := Option.isSome_iff_exists.mp (hboth rfl rfl)
      obtain ⟨p, hp, rfl⟩ := Option.map_eq_some_iff.mp (hport.symm.trans hy)
      rw [Option.bind_some] at hy
      rw [Rounds.portAt, hy, Option.bind_some] at hshift
      by_cases hl : l = i
      · subst hl
        rw [if_pos rfl] at hshift
        rw [Function.update_self]
        exact (h l).together (takes_of_loopPort hp) hstep hshift
      · rw [if_neg (Ne.symm hl)] at hshift
        rw [Function.update_of_ne hl]
        exact (h l).shift hshift

end Together

lemma matches_init (l : Fin (n + 1)) :
    Matches (Rounds.view ⟨init n, fun _ => .waiting⟩ l) (EventLoop.init LoopFunctor) where
  fits := .outside _ trivial
  pending := rfl
  todo := rfl

lemma exists_matches {p : Except Fault (Rounds n) × (Fin (n + 1) → EventLoop.State LoopFunctor)}
    {obs : List (Obs ⊕ Fin (n + 1) × EventLoop.Obs LoopFunctor)} (h : (onLoops n).Run obs p) :
    ∃ b, p.1 = .ok b ∧ (system n).Run (System.lefts obs) b.server ∧ b.Sound ∧
      ∀ l, Matches (b.view l) (p.2 l) := by
  refine h.invariant (P := fun obs p => ∃ b, p.1 = .ok b ∧
    (system n).Run (System.lefts obs) b.server ∧ b.Sound ∧ ∀ l, Matches (b.view l) (p.2 l))
    ⟨_, rfl, .init, Rounds.sound_init, matches_init⟩ ?_
  rintro obs ⟨_, loops⟩ ⟨e, x⟩ ⟨r, loops'⟩ o - ⟨b, rfl, hr, hs, hmatches⟩ hstep
  obtain ⟨hjoint, o₁, o₂, he, hx, rfl⟩ := System.product_step.mp hstep
  rw [System.lefts_append, System.lefts_map]
  obtain ⟨b', rfl, hr', hs'⟩ : ∃ b', r = .ok b' ∧
      (system n).Run (System.lefts obs ++ o₁) b'.server ∧ b'.Sound := by
    cases e with
    | none =>
      cases he
      exact ⟨b, rfl, by rwa [List.append_nil], hs⟩
    | some e => exact System.faulting_step_safe he fun c hc => Rounds.call_spec hr hs hc
  exact ⟨b', rfl, hr', hs', matches_step hs hmatches hjoint he hx⟩

/-- A server on its loops whose handlers keep their connections behaves like the server of the model,
and each of its loops like an event loop. The two agree: in every state the queue and the batch of a
loop hold the functors that they hold in the model, in this order, and the thread is in the same
part of the round. -/
theorem loops_refine {p : Except Fault (Rounds n) × (Fin (n + 1) → EventLoop.State LoopFunctor)}
    {obs : List (Obs ⊕ Fin (n + 1) × EventLoop.Obs LoopFunctor)} (h : (onLoops n).Run obs p) :
    ∃ b, p.1 = .ok b ∧ (system n).Run (System.lefts obs) b.server ∧
      ∀ l, (EventLoop.system LoopFunctor).Run (System.shownBy l (System.rights obs)) (p.2 l) ∧
        Matches (b.view l) (p.2 l) := by
  obtain ⟨b, hb, hr, -, hmatches⟩ := exists_matches h
  exact ⟨b, hb, hr, fun l => ⟨h.snd.copy l, hmatches l⟩⟩

/-- The main loop hands a connection to a loop for which the application has queued a functor. -/
theorem loops_refine_queued : ∃ obs p b, (onLoops 1).Run obs p ∧ p.1 = .ok b ∧
    (p.2 1).pendingFunctors = [.ofUser 3, .ofServer (.connectEstablished 0)] ∧
      (b.server.loops 1).pendingFunctors = [.connectEstablished 0] := by
  obtain ⟨p, obs, hexec, hpending⟩ : ∃ p obs, (onLoops 1).exec (onLoops 1).init
      [(none, some (0, .loop)), (none, some (0, .loop)), (none, some (0, .loop)),
        (some (.epollWait 0 [.acceptor]), some (0, .poll [0] [] false)),
        (some (.handleEvent 0), some (0, .loop)), (some (.server (.accept 5)), none),
        (some (.server (.create 0 1)), none), (none, some (1, .queue 7 (.ofUser 3))),
        (some (.server (.next 0)), some (1, .queue 0 (.ofServer (.connectEstablished 0))))] =
          some (p, obs) ∧
      (p.2 1).pendingFunctors = [.ofUser 3, .ofServer (.connectEstablished 0)] :=
    ⟨_, _, rfl, rfl⟩
  have hrun : (onLoops 1).Run obs p := .of_exec _ hexec
  obtain ⟨b, hb, -, hloops⟩ := loops_refine hrun
  refine ⟨obs, p, b, hrun, hb, hpending, ?_⟩
  have hqueue := (hloops 1).2.pending
  rw [hpending] at hqueue
  exact hqueue.symm

end ClwServer.TcpServer
