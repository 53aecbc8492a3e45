import ClwServer.Net.EventLoop.Wakeup

/-!
# Functors run once and in order

A functor goes through `pendingFunctors` and `tempFunctors`. Only the loop thread takes it out of
either, a batch is taken when the one before it is empty, and a functor that `runInLoop` gets on
the loop thread goes through neither.
-/

namespace ClwServer.EventLoop

variable {F : Type}

/-! ### The loop thread around `loop` -/

/-- The loop thread is in no function of `EventLoop`. -/
def Outside (s : State F) : Prop :=
  (s.pc = .enter ∨ s.pc = .done) ∧ s.own = .idle ∧ s.nested = []

instance (s : State F) : Decidable (Outside s) := inferInstanceAs (Decidable (_ ∧ _))

/-- The steps, where the loop thread may also call `runInLoop`, `queueInLoop` and `quit` before
it calls `loop` and when `loop` has returned. -/
def programStep (s : State F) (e : Event F) : Option (State F × List (Obs F)) :=
  match e with
  | .ownQueue f =>
    if Outside s then some ({ push s f with own := .pushed }, [.queued f]) else step s e
  | .ownRun f =>
    if Outside s then some ({ s with nested := [f] }, [.ranDirectly f]) else step s e
  | .ownQuit => if Outside s then some ({ s with quit := true }, []) else step s e
  | .loop => if s.own = .idle then step s e else none
  | _ => step s e

/-- An event loop, its thread and the threads that use it. -/
def program (F : Type) : System (State F) (Event F) (Obs F) where
  init := init F
  step := programStep

lemma InUserCode.not_outside {s : State F} (h : InUserCode s) : ¬Outside s := by
  rintro ⟨hpc, -, hnested⟩
  obtain ⟨-, hne | hat⟩ := h
  · exact hne hnested
  · rcases hpc with hpc | hpc <;> rw [hpc] at hat <;> exact hat

lemma programStep_of_step {s : State F} (hi : Inv s) {e : Event F} {r : State F × List (Obs F)}
    (h : step s e = some r) : programStep s e = some r := by
  cases e with
  | loop =>
    have hown : s.own = .idle := by
      by_contra hown
      have hat := hi.user (.inl hown)
      simp only [step, loop] at h
      cases hpc : s.pc <;> simp [AtUserCode, hpc] at hat h
    rw [programStep, if_pos hown, h]
  | ownQueue | ownRun | ownQuit =>
    have huser : InUserCode s := by
      by_contra hnot
      simp [step, hnot] at h
    rw [programStep, if_neg huser.not_outside, h]
  | _ => exact h

/-- The runs of the loop are runs of its program. -/
lemma run_program {obs : List (Obs F)} {s : State F} (h : (system F).Run obs s) :
    (program F).Run obs s :=
  h.invariant System.Run.init fun _ _ _ _ _ hr hp he =>
    hp.step (programStep_of_step (inv_of_reachable hr.reachable) he)

/-! ### What a run has shown -/

/-- The functors that entered `pendingFunctors`. -/
def queued (obs : List (Obs F)) : List F :=
  obs.filterMap fun
    | .queued f => some f
    | _ => none

/-- The functors of the batches that were called. -/
def executed (obs : List (Obs F)) : List F :=
  obs.filterMap fun
    | .ran f => some f
    | _ => none

/-- The functors that `runInLoop` has called itself. -/
def ranDirectly (obs : List (Obs F)) : List F :=
  obs.filterMap fun
    | .ranDirectly f => some f
    | _ => none

section Append

variable (obs o : List (Obs F))

@[simp] lemma queued_append : queued (obs ++ o) = queued obs ++ queued o := List.filterMap_append

@[simp] lemma executed_append : executed (obs ++ o) = executed obs ++ executed o :=
  List.filterMap_append

end Append

/-- The functor of a call that queues it, at the end of the section under `mutex_`: of
`queueInLoop`, or of `runInLoop` by another thread. -/
def queueCall : Event F → Option F
  | .ownQueue f | .queue _ f => some f
  | _ => none

/-- The functor of a call of `runInLoop` on the loop thread. -/
def runCall : Event F → Option F
  | .ownRun f => some f
  | _ => none

/-- The thread that makes a step; `none` is the loop thread. -/
def Event.thread : Event F → Option ℕ
  | .queue t _ | .quit t | .wake t => some t
  | _ => none

/-! ### What a step does to the queues -/

/-- The batch has been taken and is not done. -/
def InBatch (s : State F) : Prop := s.pc = .functors ∨ s.pc = .functor

/-- The observation is about no functor. -/
def Obs.Quiet : Obs F → Prop
  | .returned _ | .quitCalled _ | .quitReturned _ => True
  | _ => False

lemma filterMap_quiet {p : Obs F → Option F} (hp : ∀ x, x.Quiet → p x = none)
    {o : List (Obs F)} (h : ∀ x ∈ o, x.Quiet) : o.filterMap p = [] :=
  List.filterMap_eq_nil_iff.mpr fun x hx => hp x (h x hx)

lemma queued_quiet {o : List (Obs F)} (h : ∀ x ∈ o, x.Quiet) : queued o = [] :=
  filterMap_quiet (by rintro (_ | _) hx <;> first | rfl | exact hx.elim) h

lemma executed_quiet {o : List (Obs F)} (h : ∀ x ∈ o, x.Quiet) : executed o = [] :=
  filterMap_quiet (by rintro (_ | _) hx <;> first | rfl | exact hx.elim) h

lemma ranDirectly_quiet {o : List (Obs F)} (h : ∀ x ∈ o, x.Quiet) : ranDirectly o = [] :=
  filterMap_quiet (by rintro (_ | _) hx <;> first | rfl | exact hx.elim) h

/-- The steps, by what they do to the queues. -/
inductive Effect (s : State F) : Event F → State F → List (Obs F) → Prop
  | push (e : Event F) (f : F) (t : State F) (hcall : queueCall e = some f)
      (hrun : runCall e = none) (hpc : t.pc = s.pc) (htemp : t.tempFunctors = s.tempFunctors)
      (hpending : t.pendingFunctors = s.pendingFunctors ++ [f]) : Effect s e t [.queued f]
  | direct (f : F) : Effect s (.ownRun f) { s with nested := f :: s.nested } [.ranDirectly f]
  | swap (hpc : s.pc = .swap) :
      Effect s .loop { s with tempFunctors := s.pendingFunctors, pendingFunctors := [],
                              pc := .functors } [.batch]
  | run (f : F) (fs : List F) (hpc : s.pc = .functors) (htemp : s.tempFunctors = f :: fs) :
      Effect s .loop { s with tempFunctors := fs, pc := .functor } [.ran f]
  | quiet (e : Event F) (t : State F) (o : List (Obs F)) (hcall : queueCall e = none)
      (hrun : runCall e = none) (htemp : t.tempFunctors = s.tempFunctors)
      (hpending : t.pendingFunctors = s.pendingFunctors)
      (hpc : InBatch s → InBatch t ∨ s.tempFunctors = [])
      (hshown : ∀ x ∈ o, x.Quiet) : Effect s e t o

lemma Effect.of_loop {s t : State F} {o : List (Obs F)} (h : loop s = some (t, o)) :
    Effect s .loop t o := by
  have hquiet : ∀ u : State F, u.tempFunctors = s.tempFunctors →
      u.pendingFunctors = s.pendingFunctors → (InBatch s → s.tempFunctors = []) →
      Effect s .loop u [] := fun u htemp hpending hpc =>
    .quiet _ _ _ rfl rfl htemp hpending (fun hs => .inr (hpc hs)) (by simp)
  simp only [loop] at h
  cases hpc : s.pc with
  | dispatch active =>
    rcases active with _ | ⟨_ | _, active⟩ <;> simp only [hpc] at h <;> cases h <;>
      exact hquiet _ rfl rfl (by simp [InBatch, hpc])
  | functors =>
    simp only [hpc] at h
    cases htemp : s.tempFunctors with
    | nil =>
      simp only [htemp] at h
      cases h
      exact hquiet _ htemp.symm rfl fun _ => htemp
    | cons f fs =>
      simp only [htemp] at h
      cases h
      exact .run f fs hpc htemp
  | swap =>
    simp only [hpc] at h
    cases h
    exact .swap hpc
  | wait | callback | functor | done => simp only [hpc, reduceCtorEq] at h
  | _ =>
    simp only [hpc] at h
    cases h
    exact hquiet _ rfl rfl (by simp [InBatch, hpc])

/-- User code goes on at another point, which is not one of a batch. -/
lemma Effect.of_leaveUserCode {s t : State F} (h : leaveUserCode s = some t) :
    Effect s .ownReturn t [] := by
  simp only [leaveUserCode] at h
  split at h
  · split at h
    · cases h
      exact .quiet _ _ _ rfl rfl rfl rfl .inl (by simp)
    · rename_i hpc
      cases h
      exact .quiet _ _ _ rfl rfl rfl rfl (by simp [InBatch, hpc]) (by simp)
    · cases h
      exact .quiet _ _ _ rfl rfl rfl rfl (fun _ => .inl (.inl rfl)) (by simp)
    · cases h
  · cases h

/-- The calls of user code on the loop thread. -/
lemma Effect.of_ownRun {s t : State F} {f : F} {o : List (Obs F)}
    (h : programStep s (.ownRun f) = some (t, o)) :
    t = { s with nested := f :: s.nested } ∧ o = [.ranDirectly f] := by
  by_cases hout : Outside s
  · have hnested : s.nested = [] := hout.2.2
    simp only [programStep, if_pos hout] at h
    cases h
    exact ⟨by rw [hnested], rfl⟩
  · simp only [programStep, if_neg hout, step] at h
    split at h <;> cases h
    exact ⟨rfl, rfl⟩

lemma Effect.of_step {s t : State F} {e : Event F} {o : List (Obs F)}
    (h : (program F).step s e = some (t, o)) : Effect s e t o := by
  change programStep s e = some (t, o) at h
  cases e with
  | loop =>
    simp only [programStep, step] at h
    split at h
    · split at h
      · exact .of_loop h
      · cases h
    · cases h
  | ownQueue f =>
    simp only [programStep, step] at h
    split at h
    · cases h
      exact .push _ f _ rfl rfl rfl rfl rfl
    · split at h <;> cases h
      exact .push _ f _ rfl rfl rfl rfl rfl
  | ownRun f =>
    obtain ⟨rfl, rfl⟩ := Effect.of_ownRun h
    exact .direct f
  | queue t f =>
    simp only [programStep, step] at h
    split at h <;> cases h
    exact .push _ f _ rfl rfl rfl rfl rfl
  | ownReturn =>
    simp only [programStep, step, Option.map_eq_some_iff, Prod.mk.injEq] at h
    obtain ⟨u, hu, rfl, rfl⟩ := h
    exact .of_leaveUserCode hu
  | poll before after scan =>
    simp only [programStep, step] at h
    split at h <;> cases h
    rename_i hpc
    exact .quiet _ _ _ rfl rfl rfl rfl (by simp [InBatch, hpc]) (by simp)
  | ownWake =>
    simp only [programStep, step] at h
    split at h <;> cases h
    refine .quiet _ _ _ rfl rfl ?_ ?_ ?_ (by simp [Obs.Quiet])
    all_goals cases s.isPendingFunctor <;> simp +contextual [InBatch]
  | ownQuit =>
    simp only [programStep, step] at h
    split at h
    · cases h
      exact .quiet _ _ _ rfl rfl rfl rfl .inl (by simp [Obs.Quiet])
    · split at h <;> cases h
      exact .quiet _ _ _ rfl rfl rfl rfl .inl (by simp [Obs.Quiet])
  | quit t =>
    simp only [programStep, step] at h
    split at h <;> cases h
    exact .quiet _ _ _ rfl rfl rfl rfl .inl (by simp [Obs.Quiet])
  | wake t =>
    simp only [programStep, step] at h
    split at h <;> cases h <;> exact .quiet _ _ _ rfl rfl rfl rfl .inl (by simp [Obs.Quiet])

lemma Effect.queued_eq {s t : State F} {e : Event F} {o : List (Obs F)} (h : Effect s e t o) :
    queued o = (queueCall e).toList := by
  cases h with
  | push _ f _ hcall =>
    rw [hcall]
    rfl
  | quiet _ _ _ hcall _ _ _ _ hshown =>
    rw [hcall, queued_quiet hshown, Option.toList_none]
  | _ => rfl

lemma Effect.ranDirectly_eq {s t : State F} {e : Event F} {o : List (Obs F)}
    (h : Effect s e t o) : ranDirectly o = (runCall e).toList := by
  cases h with
  | push _ f _ _ hrun =>
    rw [hrun]
    rfl
  | quiet _ _ _ _ hrun _ _ _ hshown =>
    rw [hrun, ranDirectly_quiet hshown, Option.toList_none]
  | _ => rfl

/-- Only the loop thread calls a functor. -/
lemma Effect.thread_eq {s t : State F} {e : Event F} {o : List (Obs F)} {f : F}
    (h : Effect s e t o) (hran : .ran f ∈ o ∨ .ranDirectly f ∈ o) : e.thread = none := by
  cases h with
  | push => simp at hran
  | quiet _ _ _ _ _ _ _ _ hshown =>
    rcases hran with hmem | hmem <;> exact (hshown _ hmem).elim
  | _ => rfl

/-! ### The order of the functors -/

structure Ordered (obs : List (Obs F)) (s : State F) : Prop where
  all : executed obs ++ s.tempFunctors ++ s.pendingFunctors = queued obs
  /-- A batch is done when the next one is taken. -/
  empty : ¬InBatch s → s.tempFunctors = []
  /-- What was queued before the last swap has run or is in the batch, and nothing else. -/
  batch : ∀ pre mid, obs = pre ++ .batch :: mid → .batch ∉ mid →
    executed obs ++ s.tempFunctors = queued pre

lemma ordered_init : Ordered [] (init F) where
  all := rfl
  empty := fun _ => rfl
  batch := by simp

lemma batch_append {obs o pre mid : List (Obs F)} (ho : .batch ∉ o)
    (h : obs ++ o = pre ++ .batch :: mid) :
    ∃ mid', obs = pre ++ .batch :: mid' ∧ mid = mid' ++ o := by
  rcases List.append_eq_append_iff.mp h with ⟨a, rfl, ha⟩ | ⟨a, rfl, ha⟩
  · exact absurd (ha ▸ List.mem_append_right _ (List.mem_cons_self ..)) ho
  · rcases a with _ | ⟨x, a⟩
    · obtain rfl : .batch :: mid = o := ha
      exact absurd (List.mem_cons_self ..) ho
    · obtain ⟨rfl, rfl⟩ := List.cons.inj ha
      exact ⟨a, rfl, rfl⟩

/-- A step that takes no batch and calls what it takes out of the batch. -/
lemma Ordered.stay {obs o : List (Obs F)} {s t : State F} (h : Ordered obs s)
    (ho : .batch ∉ o) (htemp : executed o ++ t.tempFunctors = s.tempFunctors)
    (hpending : t.pendingFunctors = s.pendingFunctors ++ queued o)
    (hempty : ¬InBatch t → t.tempFunctors = []) : Ordered (obs ++ o) t where
  all := by
    rw [executed_append, queued_append, ← h.all, hpending, List.append_assoc (executed obs), htemp,
      ← List.append_assoc]
  empty := hempty
  batch := by
    intro pre mid hobs hmid
    obtain ⟨mid', rfl, rfl⟩ := batch_append ho hobs
    rw [executed_append, List.append_assoc, htemp]
    exact h.batch pre mid' rfl fun hmem => hmid (List.mem_append_left _ hmem)

lemma Ordered.effect {obs o : List (Obs F)} {s t : State F} {e : Event F} (h : Ordered obs s)
    (he : Effect s e t o) : Ordered (obs ++ o) t := by
  cases he with
  | push e f t _ _ hpc htemp hpending =>
    refine h.stay (by simp) (by rw [htemp]; rfl) (by rw [hpending]; rfl) fun hbatch => ?_
    rw [htemp]
    exact h.empty (by simpa only [InBatch, hpc] using hbatch)
  | direct f => exact h.stay (by simp) rfl (List.append_nil _).symm h.empty
  | swap hpc =>
    have htemp : s.tempFunctors = [] := h.empty (by simp [InBatch, hpc])
    have hall := h.all
    rw [htemp, List.append_nil] at hall
    refine ⟨?_, fun hbatch => absurd (.inl rfl) hbatch, fun pre mid hobs hmid => ?_⟩
    · simpa [executed, queued] using hall
    · obtain ⟨rfl, rfl⟩ : pre = obs ∧ mid = [] := by
        rcases List.eq_nil_or_concat mid with rfl | ⟨mid', x, rfl⟩
        · exact ⟨(List.append_inj' hobs rfl).1.symm, rfl⟩
        · have hlast : obs ++ [.batch] = (pre ++ .batch :: mid') ++ [x] := by
            simpa using hobs
          obtain ⟨-, hx⟩ := List.append_inj' hlast rfl
          cases hx
          simp at hmid
      rw [executed_append]
      simpa [executed] using hall
  | run f fs hpc htemp =>
    exact h.stay (by simp) htemp.symm (List.append_nil _).symm fun hbatch =>
      absurd (.inr rfl) hbatch
  | quiet _ _ _ _ _ htemp hpending hpc hshown =>
    refine h.stay (fun hmem => hshown _ hmem) ?_ ?_ fun hbatch => ?_
    · rw [executed_quiet hshown, htemp, List.nil_append]
    · rw [queued_quiet hshown, hpending, List.append_nil]
    · rw [htemp]
      by_cases hin : InBatch s
      · exact (hpc hin).resolve_left hbatch
      · exact h.empty hin

lemma ordered_of_run {obs : List (Obs F)} {s : State F} (h : (program F).Run obs s) :
    Ordered obs s :=
  h.invariant (P := Ordered) ordered_init fun _ _ _ _ _ _ ho he => ho.effect (.of_step he)

/-- What a run by the events `es` owes to the functors. -/
structure RunsInOrder (es : List (Event F)) (obs : List (Obs F)) (s : State F) : Prop where
  /-- What was queued has run, or is in the batch, or waits, in the order of `mutex_`. -/
  order : executed obs ++ s.tempFunctors ++ s.pendingFunctors = es.filterMap queueCall
  /-- What the last batch has run and has still to run was queued before it was taken. -/
  batch : ∀ pre mid, obs = pre ++ .batch :: mid → .batch ∉ mid →
    executed pre ++ executed mid ++ s.tempFunctors = queued pre
  queued : queued obs = es.filterMap queueCall
  /-- On the loop thread `runInLoop` calls its functor, once. -/
  direct : ranDirectly obs = es.filterMap runCall
  /-- A functor is called by the loop thread only, and `runInLoop` there does so before it
  returns, and queues nothing. -/
  steps : ∀ es₁ e es₂, es = es₁ ++ e :: es₂ → ∃ u v pre o post,
    (program F).exec (init F) es₁ = some (u, pre) ∧ (program F).step u e = some (v, o) ∧
      obs = pre ++ o ++ post ∧
      (∀ f, .ran f ∈ o ∨ .ranDirectly f ∈ o → e.thread = none) ∧
      ∀ f, e = .ownRun f → o = [.ranDirectly f] ∧ v = { u with nested := f :: u.nested }

/-- In every run, functors run once and in the order in which they were queued. -/
theorem functors_run_in_order {es : List (Event F)} {obs : List (Obs F)} {s : State F}
    (h : (program F).exec (init F) es = some (s, obs)) : RunsInOrder es obs s := by
  have hordered := ordered_of_run (.of_exec es h)
  have hqueued : queued obs = es.filterMap queueCall :=
    System.exec_filterMap (fun _ _ _ _ he => (Effect.of_step he).queued_eq) h
  refine ⟨hordered.all.trans hqueued, fun pre mid hobs hmid => ?_, hqueued,
    System.exec_filterMap (fun _ _ _ _ he => (Effect.of_step he).ranDirectly_eq) h, ?_⟩
  · rw [← hordered.batch pre mid hobs hmid, hobs, executed_append]
    rfl
  · rintro es₁ e es₂ rfl
    obtain ⟨u, v, pre, o, post, hpre, he, hobs⟩ := System.exec_split h
    refine ⟨u, v, pre, o, post, hpre, he, hobs, fun f => (Effect.of_step he).thread_eq, ?_⟩
    rintro f rfl
    obtain ⟨rfl, rfl⟩ := Effect.of_ownRun he
    exact ⟨rfl, rfl⟩

/-- A functor of a batch queues one and calls another directly, while a thread queues a third. -/
theorem functors_run_in_order_nested : ∃ obs s,
    (program ℕ).exec (init ℕ) [.ownRun 9, .ownReturn, .queue 1 1, .wake 1, .loop, .loop, .loop,
      .poll [] [] true, .loop, .loop, .loop, .loop, .loop, .ownQueue 2, .ownWake, .queue 1 3,
      .ownRun 4, .ownReturn, .ownReturn] = some (s, obs) ∧
    executed obs = [1] ∧ s.tempFunctors = [] ∧ s.pendingFunctors = [2, 3] ∧
      ranDirectly obs = [9, 4] ∧
      RunsInOrder [.ownRun 9, .ownReturn, .queue 1 1, .wake 1, .loop, .loop, .loop,
        .poll [] [] true, .loop, .loop, .loop, .loop, .loop, .ownQueue 2, .ownWake, .queue 1 3,
        .ownRun 4, .ownReturn, .ownReturn] obs s :=
  ⟨_, _, rfl, rfl, rfl, rfl, rfl, functors_run_in_order rfl⟩

end ClwServer.EventLoop
