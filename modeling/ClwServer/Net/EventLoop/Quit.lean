import ClwServer.Net.EventLoop.Wakeup

/-!
# Quitting the loop

`loop` begins with `quit_ = false`, so a `quit` that another thread stores before that point is
forgotten. One that is stored later stays: no other step resets the flag, and the `wakeup` behind
it gets the loop thread out of `epoll_wait`.
-/

namespace ClwServer.EventLoop

variable {F : Type}

/-- `loop` has still to execute `quit_ = false`. -/
def BeforeReset (s : State F) : Prop := s.pc = .enter ∨ s.pc = .clearQuit

instance (s : State F) : Decidable (BeforeReset s) := inferInstanceAs (Decidable (_ ∨ _))

/-- Another thread stores `quit_` only behind the reset of the flag in `loop`. -/
def StoredAfterReset (s : State F) : Event F → Prop
  | .quit _ => ¬BeforeReset s
  | _ => True

instance (s : State F) (e : Event F) : Decidable (StoredAfterReset s e) := by
  cases e <;> unfold StoredAfterReset <;> infer_instance

lemma quitCalled_notMem_of_loop {s t : State F} {o : List (Obs F)} (h : loop s = some (t, o))
    (i : ℕ) : .quitCalled i ∉ o := by
  intro hmem
  simp only [loop] at h
  split at h <;> (try split at h) <;> cases h <;> simp at hmem

/-- Only `quit` stores the flag from another thread. -/
lemma event_of_quitCalled {s t : State F} {e : Event F} {o : List (Obs F)}
    (h : (system F).step s e = some (t, o)) {i : ℕ} (hmem : .quitCalled i ∈ o) :
    e = .quit i := by
  change EventLoop.step s e = some (t, o) at h
  cases e with
  | loop =>
    simp only [EventLoop.step] at h
    split at h
    · exact absurd hmem (quitCalled_notMem_of_loop h i)
    · cases h
  | quit t =>
    simp only [EventLoop.step] at h
    split at h <;> cases h
    obtain rfl := by simpa using hmem
    rfl
  | ownReturn =>
    simp only [EventLoop.step, Option.map_eq_some_iff, Prod.mk.injEq] at h
    obtain ⟨_, _, _, rfl⟩ := h
    simp at hmem
  | poll | ownQueue | ownWake | ownRun | ownQuit | queue | wake =>
    simp only [EventLoop.step] at h
    split at h <;> cases h <;> simp at hmem

/-! ### A stored quit stays -/

/-- Some other thread has stored `quit_`. -/
def QuitStored (obs : List (Obs F)) (s : State F) : Prop :=
  ∃ t, s.callers t = .quitStored ∨ .quitReturned t ∈ obs

/-- A quit was stored before this step, unless the step stores it. -/
lemma QuitStored.of_move {s t : State F} {obs o : List (Obs F)} (hm : Move s t o)
    (h : QuitStored (obs ++ o) t) : (∃ i, .quitCalled i ∈ o) ∨ QuitStored obs s := by
  obtain ⟨i, hi⟩ := h
  cases hm with
  | quit j _ => exact .inl ⟨j, by simp⟩
  | queue j f _ | wakePushed j _ =>
    refine .inr ⟨i, ?_⟩
    by_cases hij : i = j
    · subst hij
      simp only [setCaller_callers, Function.update_self, reduceCtorEq, false_or] at hi
      exact .inr (by simpa using hi)
    · simpa [hij] using hi
  | wakeQuit j hstored =>
    by_cases hij : i = j
    · exact .inr ⟨j, .inl hstored⟩
    · exact .inr ⟨i, by simpa [hij] using hi⟩
  | ownWake _ => exact .inr ⟨i, by split at hi <;> simpa using hi⟩
  | _ => exact .inr ⟨i, by simpa using hi⟩

/-- Once the reset is behind the loop thread, the flag is never taken back. -/
lemma Move.quit_kept {s t : State F} {o : List (Obs F)} (hm : Move s t o)
    (hreset : ¬BeforeReset s) (hquit : s.quit = true) : ¬BeforeReset t ∧ t.quit = true := by
  cases hm with
  | enter hpc => exact absurd (.inl hpc) hreset
  | clearQuit hpc => exact absurd (.inr hpc) hreset
  | ownWake _ =>
    split
    · exact ⟨hreset, hquit⟩
    · exact ⟨hreset, hquit⟩
  | ownQuit _ | quit _ _ => exact ⟨hreset, rfl⟩
  | ownQueue | ownRun | returnNested | queue | wakePushed | wakeQuit => exact ⟨hreset, hquit⟩
  | _ => exact ⟨by simp [BeforeReset], hquit⟩

lemma quit_of_quitStored {obs : List (Obs F)} {s : State F}
    (h : ((system F).restrict StoredAfterReset).Run obs s) (hstored : QuitStored obs s) :
    ¬BeforeReset s ∧ s.quit = true := by
  revert hstored
  refine h.invariant (P := fun obs s => QuitStored obs s → ¬BeforeReset s ∧ s.quit = true) ?_ ?_
  · rintro ⟨t, ht⟩
    simp [System.restrict, system, init] at ht
  · intro obs s e t o _ ih he hstored
    obtain ⟨hcond, he⟩ := System.restrict_step.mp he
    have hm := Move.of_step he
    rcases hstored.of_move hm with ⟨i, hmem⟩ | hbefore
    · obtain rfl := event_of_quitCalled he hmem
      cases hm with
      | quit => exact ⟨hcond, rfl⟩
      | _ => simp at hmem
    · obtain ⟨hreset, hquit⟩ := ih hbefore
      exact hm.quit_kept hreset hquit

/-! ### A stored quit wakes the loop thread -/

/-- In `epoll_wait` no user code runs on the loop thread. -/
lemma Inv.not_inUserCode {s : State F} (hi : Inv s) (hpc : s.pc = .wait) : ¬InUserCode s := by
  intro huser
  have hat := huser.atUserCode hi
  simp [AtUserCode, hpc] at hat

/-- While the flag is set, the loop thread is blocked only with a wakeup on its way. -/
theorem wakeup_of_quit {s : State F} (h : (system F).Reachable s) (hpc : s.pc = .wait)
    (hquit : s.quit = true) : s.wakeupFd.Undelivered ∨ ∃ t, s.callers t = .quitStored := by
  revert hpc hquit
  refine h.invariant (P := fun s => s.pc = .wait → s.quit = true →
    s.wakeupFd.Undelivered ∨ ∃ t, s.callers t = .quitStored) ?_ ?_
  · intro hpc
    cases hpc
  · intro s e t o hs ih he hpc hquit
    have hi := inv_of_reachable hs
    cases Move.of_step he with
    | testWait _ hclear => exact absurd hquit (by simp [hclear])
    | ownQueue _ huser | ownRun _ huser | ownQuit huser =>
      exact absurd huser (hi.not_inUserCode hpc)
    | ownWake hown =>
      have huser := hi.user (.inl (by simp [hown]))
      have hpc' : s.pc = .wait := by
        by_cases hflag : s.isPendingFunctor = true <;> simpa [hflag, wakeup] using hpc
      simp [AtUserCode, hpc'] at huser
    | returnNested => exact ih hpc hquit
    | queue i f hidle =>
      rcases ih hpc hquit with hdeliver | ⟨j, hj⟩
      · exact .inl hdeliver
      · have hne : j ≠ i := by
          rintro rfl
          rw [hidle] at hj
          cases hj
        exact .inr ⟨j, by simpa [hne] using hj⟩
    | quit i _ => exact .inr ⟨i, by simp [setCaller]⟩
    | wakePushed | wakeQuit =>
      left
      have hpc' : s.pc = .wait := hpc
      refine hi.wakeup_undelivered.resolve_left ?_
      simp [SwapAhead, hpc']
    | _ => cases hpc

/-! ### A loop that nobody quits -/

/-- `quit` is called. -/
def IsQuit : Event F → Prop
  | .ownQuit | .quit _ => True
  | _ => False

instance (e : Event F) : Decidable (IsQuit e) := by
  cases e <;> unfold IsQuit <;> infer_instance

/-- `quit_` is not set, and `loop` does not end. -/
structure Unquit (s : State F) : Prop where
  quit : s.quit = false
  leave : s.pc ≠ .leave
  done : s.pc ≠ .done

lemma quit_of_loop {s t : State F} {o : List (Obs F)} (h : loop s = some (t, o))
    (hquit : t.quit = true) : s.quit = true := by
  simp only [loop] at h
  split at h <;> (try split at h) <;> cases h <;> first | exact hquit | cases hquit

/-- Only `quit` sets the flag. -/
lemma quit_of_step {s t : State F} {e : Event F} {o : List (Obs F)}
    (h : (system F).step s e = some (t, o)) (he : ¬IsQuit e) (hquit : t.quit = true) :
    s.quit = true := by
  change EventLoop.step s e = some (t, o) at h
  cases e with
  | loop =>
    simp only [EventLoop.step] at h
    split at h
    · exact quit_of_loop h hquit
    · cases h
  | ownQuit | quit => exact absurd trivial he
  | ownReturn =>
    simp only [EventLoop.step, Option.map_eq_some_iff, Prod.mk.injEq] at h
    obtain ⟨u, hu, rfl, rfl⟩ := h
    simp only [leaveUserCode] at hu
    split at hu
    · split at hu <;> cases hu <;> exact hquit
    · cases hu
  | ownWake =>
    simp only [EventLoop.step] at h
    split at h <;> cases h
    split at hquit <;> exact hquit
  | poll | ownQueue | ownRun | queue | wake =>
    simp only [EventLoop.step] at h
    split at h <;> cases h <;> exact hquit

lemma Unquit.of_step {s t : State F} {e : Event F} {o : List (Obs F)} (hs : Unquit s)
    (h : (system F).step s e = some (t, o)) (he : ¬IsQuit e) : Unquit t := by
  have hquit : t.quit = false := by
    by_contra hset
    have hbefore := quit_of_step h he (by simpa using hset)
    rw [hs.quit] at hbefore
    cases hbefore
  cases Move.of_step h with
  | testQuit _ hset => exact absurd hset (by simp [hs.quit])
  | leave hpc => exact absurd hpc hs.leave
  | ownWake =>
    split
    · exact ⟨hs.quit, hs.leave, hs.done⟩
    · exact ⟨hs.quit, hs.leave, hs.done⟩
  | ownQueue | ownRun | ownQuit | returnNested | queue | quit | wakePushed | wakeQuit =>
    exact ⟨hquit, hs.leave, hs.done⟩
  | _ => exact ⟨hquit, by simp, by simp⟩

end ClwServer.EventLoop
