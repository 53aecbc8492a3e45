import ClwServer.Net.EventLoop.Order
import ClwServer.Net.EventLoop.Quit

/-!
# The last batch

`loop` looks at `quit_` behind the functors of a round. A `quit` that comes between the swap of
`pendingFunctors` and this test makes the round the last one, and leaves behind what was queued
after its swap.
-/

namespace ClwServer.EventLoop

variable {F : Type}

/-- The loop thread will swap `pendingFunctors` before it looks at `quit_` again. -/
def InRound (s : State F) : Prop := s.pc = .wait ∨ SwapAhead s

/-- The call that queued the functor number `n` is among `es`, and has returned. -/
def Returned (es : List (Event F)) (n : ℕ) : Prop :=
  ∃ pre e post, es = pre ++ e :: post ∧ (pre.filterMap queueCall).length = n ∧
    match e with
    | .queue t _ => .wake t ∈ post
    | .ownQueue _ => .ownWake ∈ post
    | _ => False

/-- The functor number `n` has been called. -/
def Executed (obs : List (Obs F)) (n : ℕ) : Prop := n < (executed obs).length

/-- The functor number `n` of those that `es` queued is in `pendingFunctors` no more. -/
def Swapped (es : List (Event F)) (s : State F) (n : ℕ) : Prop :=
  n + s.pendingFunctors.length < (es.filterMap queueCall).length

/-- How many functors were taken out of `pendingFunctors`. -/
def taken (obs : List (Obs F)) (s : State F) : ℕ := (executed obs).length + s.tempFunctors.length

variable {es pre post : List (Event F)} {obs o : List (Obs F)} {s t : State F} {e : Event F}
  {n : ℕ}

lemma Returned.lt (h : Returned es n) : n < (es.filterMap queueCall).length := by
  obtain ⟨pre, e, post, rfl, rfl, he⟩ := h
  have hcall : (queueCall e).isSome := by
    cases e with
    | queue | ownQueue => rfl
    | _ => exact he.elim
  obtain ⟨f, hf⟩ := Option.isSome_iff_exists.mp hcall
  rw [List.filterMap_append, List.filterMap_cons_some hf, List.length_append, List.length_cons]
  omega

/-- What is called are the first functors that were queued, in their order. -/
lemma executed_eq_take (h : Ordered obs s) :
    executed obs = (queued obs).take (executed obs).length := by
  rw [← h.all, List.append_assoc, List.take_left]

lemma Ordered.taken_add (h : Ordered obs s) :
    taken obs s + s.pendingFunctors.length = (queued obs).length := by
  have hlen := congrArg List.length h.all
  rwa [List.length_append, List.length_append] at hlen

/-! ### Steps -/

/-- A step of `loop` and its callers, or a call of the loop thread outside of `loop`. -/
lemma move_or_outside (h : (program F).step s e = some (t, o)) :
    Move s t o ∨ Outside s ∧ t.pc = s.pc ∧ (s.quit = true → t.quit = true) := by
  change programStep s e = some (t, o) at h
  have hmove : step s e = some (t, o) → Move s t o := fun hstep => .of_step (e := e) hstep
  cases e with
  | loop =>
    simp only [programStep] at h
    split at h
    · exact .inl (hmove h)
    · cases h
  | ownQueue f | ownRun f | ownQuit =>
    simp only [programStep] at h
    split at h
    · rename_i hout
      cases h
      exact .inr ⟨hout, rfl, by simp⟩
    · exact .inl (hmove h)
  | poll | ownWake | ownReturn | queue | quit | wake => exact .inl (hmove h)

/-- Nothing is put back into `pendingFunctors`. -/
lemma Ordered.taken_le (h : Ordered obs s) (he : Effect s e t o) :
    taken obs s ≤ taken (obs ++ o) t := by
  rw [taken, taken, executed_append, List.length_append]
  cases he with
  | push _ _ _ _ _ _ htemp =>
    rw [htemp]
    omega
  | direct => exact Nat.le_refl _
  | swap hpc =>
    rw [h.empty (by simp [InBatch, hpc]), List.length_nil]
    omega
  | run f fs _ htemp =>
    rw [htemp, List.length_cons]
    show _ ≤ (executed obs).length + 1 + fs.length
    omega
  | quiet _ _ _ _ _ htemp =>
    rw [htemp]
    omega

/-- A batch is all that was queued. -/
lemma Ordered.taken_of_batch (h : Ordered obs s) (he : Effect s e t o) (hbatch : .batch ∈ o) :
    taken (obs ++ o) t = (queued (obs ++ o)).length := by
  have hafter := (h.effect he).taken_add
  cases he with
  | swap hpc => exact hafter
  | quiet _ _ _ _ _ _ _ _ hshown => exact (hshown _ hbatch).elim
  | push | direct | run => simp at hbatch

/-- A round goes on until its swap. -/
lemma InRound.step (h : InRound s) (he : (program F).step s e = some (t, o)) :
    InRound t ∨ .batch ∈ o := by
  rcases move_or_outside he with hm | ⟨-, hpc, -⟩
  · cases hm with
    | swap => exact .inr (List.mem_singleton.mpr rfl)
    | testWait | poll | read | call | dispatched | setPending | returnCallback =>
      left
      simp [InRound, SwapAhead]
    | ownWake =>
      left
      split <;> exact h
    | ownQueue | ownRun | ownQuit | returnNested | queue | quit | wakePushed | wakeQuit =>
      exact .inl h
    | enter hpc | clearQuit hpc | testQuit hpc | run _ _ hpc | batchDone hpc | clearPending hpc
    | leave hpc | returnFunctor _ _ hpc => simp [InRound, SwapAhead, hpc] at h
  · left
    rw [InRound, SwapAhead, hpc]
    exact h

/-- The flag is set, and the swap of the round has been made. -/
structure Late (s : State F) : Prop where
  quit : s.quit = true
  reset : ¬BeforeReset s
  swapped : ¬InRound s

/-- There is no other round. -/
lemma Late.step (h : Late s) (he : (program F).step s e = some (t, o)) : Late t := by
  have hswapped := h.swapped
  rcases move_or_outside he with hm | ⟨-, hpc, hquit⟩
  · obtain ⟨hreset, hquit⟩ := hm.quit_kept h.reset h.quit
    refine ⟨hquit, hreset, ?_⟩
    cases hm with
    | testWait _ hclear => exact absurd h.quit (by simp [hclear])
    | poll hpc | read _ hpc | call _ _ hpc | dispatched hpc | setPending hpc | swap hpc
    | returnCallback _ _ _ hpc => simp [InRound, SwapAhead, hpc] at hswapped
    | ownWake => split <;> exact hswapped
    | ownQueue | ownRun | ownQuit | returnNested | queue | quit | wakePushed | wakeQuit =>
      exact hswapped
    | enter | clearQuit | testQuit | run | batchDone | clearPending | leave | returnFunctor =>
      simp [InRound, SwapAhead]
  · refine ⟨hquit h.quit, ?_, ?_⟩
    · rw [BeforeReset, hpc]
      exact h.reset
    · rw [InRound, SwapAhead, hpc]
      exact hswapped

/-- Behind the last swap the batch is called, and no other one is taken. -/
lemma Late.taken_eq (h : Late s) (he : Effect s e t o) : taken (obs ++ o) t = taken obs s := by
  rw [taken, taken, executed_append, List.length_append]
  cases he with
  | push _ _ _ _ _ _ htemp =>
    rw [htemp]
    rfl
  | direct => rfl
  | swap hpc => exact absurd (.inr (by simp [SwapAhead, hpc])) h.swapped
  | run f fs _ htemp =>
    rw [htemp, List.length_cons]
    show (executed obs).length + 1 + fs.length = _
    omega
  | quiet _ _ _ _ _ htemp _ _ hshown =>
    rw [htemp, executed_quiet hshown]
    rfl

/-! ### Runs -/

/-- In a run that ends behind `loop`, what is queued when a round is on is taken. -/
lemma taken_of_inRound (h : (program F).Run obs s) (hround : InRound s) {obs' : List (Obs F)}
    (hsteps : (program F).Steps s obs' t) (hdone : t.pc = .done) :
    (queued obs).length ≤ taken (obs ++ obs') t := by
  have hall : InRound t ∨ (queued obs).length ≤ taken (obs ++ obs') t := by
    refine hsteps.invariant (P := fun obs' t => InRound t ∨
      (queued obs).length ≤ taken (obs ++ obs') t) (.inl hround) ?_
    intro obs' u e v o hu hor he
    have hordered := ordered_of_run (h.trans hu)
    have heffect := Effect.of_step he
    rw [← List.append_assoc]
    rcases hor with hin | hle
    · refine (hin.step he).imp_right fun hbatch => ?_
      rw [hordered.taken_of_batch heffect hbatch, queued_append, queued_append,
        List.length_append, List.length_append]
      omega
    · exact .inr (Nat.le_trans hle (hordered.taken_le heffect))
  refine hall.resolve_left ?_
  simp [InRound, SwapAhead, hdone]

lemma taken_of_late (hlate : Late s) {obs' : List (Obs F)} (hsteps : (program F).Steps s obs' t) :
    taken (obs ++ obs') t = taken obs s := by
  refine (hsteps.invariant (P := fun obs' t => Late t ∧ taken (obs ++ obs') t = taken obs s)
    ⟨hlate, by rw [List.append_nil]⟩ ?_).2
  rintro obs' u e v o - ⟨hu, heq⟩ he
  refine ⟨hu.step he, ?_⟩
  rw [← List.append_assoc, hu.taken_eq (.of_step he), heq]

/-- What `quit` does, called by another thread. -/
lemma step_quit {i : ℕ} (he : (program F).step s (.quit i) = some (t, o)) :
    t = setCaller { s with quit := true } i .quitStored ∧ o = [.quitCalled i] := by
  change step s (.quit i) = some (t, o) at he
  simp only [step] at he
  split at he <;> cases he
  exact ⟨rfl, rfl⟩

/-- A thread calls `quit` while `loop` runs. When `loop` has returned, the first of the functors
that were queued have been called. Those whose calls had returned before the `quit` are all among
them if and only if the loop thread was before the swap of its round, or had taken all of them. -/
theorem executed_before_quit_iff {u : State F} {obs₁ : List (Obs F)} {i : ℕ}
    (hu : (program F).exec (init F) pre = some (u, obs₁)) (hrunning : ¬BeforeReset u)
    (h : (program F).exec (init F) (pre ++ .quit i :: post) = some (s, obs))
    (hdone : s.pc = .done) :
    executed obs =
      ((pre ++ .quit i :: post).filterMap queueCall).take (executed obs).length ∧
    ((∀ n, Returned pre n → Executed obs n) ↔
      InRound u ∨ ∀ n, Returned pre n → Swapped pre u n) := by
  obtain ⟨u', obs₁', obs₂, hu', hrest, rfl⟩ := System.exec_append.mp h
  cases hu.symm.trans hu'
  obtain ⟨v, o, obs₃, hquit, hpost, rfl⟩ := System.exec_cons.mp hrest
  have hrun : (program F).Run obs₁ u := .of_exec pre hu
  have hsteps := System.Steps.of_exec post hpost
  have hqueued : ∀ {es obs s}, (program F).exec (init F) es = some (s, obs) →
      queued obs = es.filterMap queueCall :=
    System.exec_filterMap fun _ _ _ _ he => (Effect.of_step he).queued_eq
  have hordered := ordered_of_run (.of_exec _ h)
  refine ⟨hqueued h ▸ executed_eq_take hordered, ?_⟩
  have hexecuted : (executed (obs₁ ++ (o ++ obs₃))).length = taken (obs₁ ++ (o ++ obs₃)) s := by
    rw [taken, hordered.empty (by simp [InBatch, hdone])]
    rfl
  have hadd := (ordered_of_run hrun).taken_add
  by_cases hround : InRound u
  · have hle := taken_of_inRound hrun hround ((System.Steps.single hquit).trans hsteps) hdone
    refine iff_of_true (fun n hn => ?_) (.inl hround)
    have hlt := hn.lt
    rw [Executed, hexecuted]
    rw [hqueued hu] at hle
    omega
  · -- the flag is set behind the last swap
    obtain ⟨rfl, rfl⟩ := step_quit hquit
    have hlate : Late (setCaller { u with quit := true } i .quitStored) :=
      ⟨rfl, hrunning, hround⟩
    have heq : taken (obs₁ ++ [.quitCalled i] ++ obs₃) s = taken (obs₁ ++ [.quitCalled i])
        (setCaller { u with quit := true } i .quitStored) := taken_of_late hlate hsteps
    have hbefore : taken (obs₁ ++ [.quitCalled i])
        (setCaller { u with quit := true } i .quitStored) = taken obs₁ u := by
      rw [taken, executed_append, List.length_append]
      rfl
    rw [hbefore, List.append_assoc] at heq
    rw [or_iff_right hround]
    refine forall₂_congr fun n _ => ?_
    rw [Executed, Swapped, hexecuted, heq, ← hqueued hu]
    omega

/-- The loop thread is in `epoll_wait`: the functor is called. -/
theorem executed_before_quit_iff_wait : ∃ u obs₁ s obs,
    (program ℕ).exec (init ℕ) [.loop, .loop, .loop, .queue 1 7, .wake 1] = some (u, obs₁) ∧
    (program ℕ).exec (init ℕ) ([.loop, .loop, .loop, .queue 1 7, .wake 1] ++ .quit 1 ::
      [.wake 1, .poll [] [] true, .loop, .loop, .loop, .loop, .loop, .ownReturn, .loop, .loop,
        .loop, .loop]) = some (s, obs) ∧ s.pc = .done ∧
    ((∀ n, Returned [.loop, .loop, .loop, .queue 1 7, .wake 1] n → Executed obs n) ↔
      InRound u ∨ ∀ n, Returned [.loop, .loop, .loop, .queue 1 7, .wake 1] n →
        Swapped [.loop, .loop, .loop, .queue 1 7, .wake 1] u n) ∧ u.pc = .wait := by
  have hfinal : ∃ u obs₁ s obs,
      (program ℕ).exec (init ℕ) [.loop, .loop, .loop, .queue 1 7, .wake 1] = some (u, obs₁) ∧
      (program ℕ).exec (init ℕ) ([.loop, .loop, .loop, .queue 1 7, .wake 1] ++ .quit 1 ::
        [.wake 1, .poll [] [] true, .loop, .loop, .loop, .loop, .loop, .ownReturn, .loop, .loop,
          .loop, .loop]) = some (s, obs) ∧ s.pc = .done ∧ u.pc = .wait :=
    ⟨_, _, _, _, rfl, rfl, rfl, rfl⟩
  obtain ⟨u, obs₁, s, obs, hu, hs, hdone, hwait⟩ := hfinal
  refine ⟨u, obs₁, s, obs, hu, hs, hdone, ?_, hwait⟩
  exact (executed_before_quit_iff hu (by simp [BeforeReset, hwait]) hs hdone).2

/-- The functor is queued behind the swap of a round, and the thread quits the loop: the round is
the last one. -/
theorem queued_before_quit_lost : ∃ s obs,
    (program ℕ).exec (init ℕ) ([.loop, .loop, .loop, .poll [] [] false, .loop, .loop, .loop,
      .queue 1 7, .wake 1] ++ .quit 1 :: [.wake 1, .loop, .loop, .loop, .loop]) =
        some (s, obs) ∧ s.pc = .done ∧
    Returned (F := ℕ) [.loop, .loop, .loop, .poll [] [] false, .loop, .loop, .loop, .queue 1 7,
      .wake 1] 0 ∧ ¬Executed obs 0 ∧ executed obs = [] ∧ s.pendingFunctors = [7] := by
  have hreturned : Returned (F := ℕ) [.loop, .loop, .loop, .poll [] [] false, .loop, .loop, .loop,
      .queue 1 7, .wake 1] 0 :=
    ⟨[.loop, .loop, .loop, .poll [] [] false, .loop, .loop, .loop], .queue 1 7, [.wake 1], rfl,
      rfl, List.mem_singleton.mpr rfl⟩
  have hfinal : ∃ s obs,
      (program ℕ).exec (init ℕ) ([.loop, .loop, .loop, .poll [] [] false, .loop, .loop, .loop,
        .queue 1 7, .wake 1] ++ .quit 1 :: [.wake 1, .loop, .loop, .loop, .loop]) =
          some (s, obs) ∧ s.pc = .done ∧ executed obs = [] ∧ s.pendingFunctors = [7] :=
    ⟨_, _, rfl, rfl, rfl, rfl⟩
  obtain ⟨s, obs, hs, hdone, hexecuted, hpending⟩ := hfinal
  refine ⟨s, obs, hs, hdone, hreturned, ?_, hexecuted, hpending⟩
  simp [Executed, hexecuted]

end ClwServer.EventLoop
