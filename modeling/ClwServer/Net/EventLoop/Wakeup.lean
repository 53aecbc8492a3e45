import ClwServer.Net.EventLoop.Basic

/-!
# The loop never sleeps on pending work

A functor in `pendingFunctors` is on its way: the loop thread is between a poll and the swap of
its round, or the call that queued it has still to write to `wakeupFd_`, or the write is
announced and not delivered. The last case outlives every step until the next poll, since only
`handleRead` resets the counter, and a swap follows it in the same round.
-/

namespace ClwServer.EventLoop

variable {F : Type}

/-! ### What a step can do -/

/-- The steps, with what they show. -/
inductive Move (s : State F) : State F → List (Obs F) → Prop
  | enter (hpc : s.pc = .enter) : Move s { s with looping := true, pc := .clearQuit } []
  | clearQuit (hpc : s.pc = .clearQuit) : Move s { s with quit := false, pc := .test } []
  | testQuit (hpc : s.pc = .test) (hquit : s.quit = true) : Move s { s with pc := .leave } []
  | testWait (hpc : s.pc = .test) (hquit : s.quit = false) : Move s { s with pc := .wait } []
  | poll (hpc : s.pc = .wait) (before after : List ℕ) (scan : Bool) :
      Move s { s with wakeupFd := if scan then s.wakeupFd.poll else s.wakeupFd
                      pc := .dispatch (reported s before after scan) } []
  | read (active : List Chan) (hpc : s.pc = .dispatch (.wakeup :: active)) :
      Move s { handleRead s with pc := .dispatch active } []
  | call (id : ℕ) (active : List Chan) (hpc : s.pc = .dispatch (.user id :: active)) :
      Move s { s with pc := .callback active } []
  | dispatched (hpc : s.pc = .dispatch []) : Move s { s with pc := .setPending } []
  | setPending (hpc : s.pc = .setPending) :
      Move s { s with isPendingFunctor := true, pc := .swap } []
  | swap (hpc : s.pc = .swap) :
      Move s { s with tempFunctors := s.pendingFunctors, pendingFunctors := [],
                      pc := .functors } [.batch]
  | run (f : F) (fs : List F) (hpc : s.pc = .functors) (htemp : s.tempFunctors = f :: fs) :
      Move s { s with tempFunctors := fs, pc := .functor } [.ran f]
  | batchDone (hpc : s.pc = .functors) (htemp : s.tempFunctors = []) :
      Move s { s with pc := .clearPending } []
  | clearPending (hpc : s.pc = .clearPending) :
      Move s { s with isPendingFunctor := false, pc := .test } []
  | leave (hpc : s.pc = .leave) : Move s { s with looping := false, pc := .done } []
  | ownQueue (f : F) (huser : InUserCode s) :
      Move s { push s f with own := .pushed } [.queued f]
  | ownWake (hown : s.own = .pushed) :
      Move s { (if s.isPendingFunctor then wakeup s else s) with own := .idle } [.returned none]
  | ownRun (f : F) (huser : InUserCode s) :
      Move s { s with nested := f :: s.nested } [.ranDirectly f]
  | ownQuit (huser : InUserCode s) : Move s { s with quit := true } []
  | returnNested (f : F) (fs : List F) (hown : s.own = .idle) (hnested : s.nested = f :: fs) :
      Move s { s with nested := fs } []
  | returnCallback (active : List Chan) (hown : s.own = .idle) (hnested : s.nested = [])
      (hpc : s.pc = .callback active) : Move s { s with pc := .dispatch active } []
  | returnFunctor (hown : s.own = .idle) (hnested : s.nested = []) (hpc : s.pc = .functor) :
      Move s { s with pc := .functors } []
  | queue (t : ℕ) (f : F) (hidle : s.callers t = .idle) :
      Move s (setCaller (push s f) t .pushed) [.queued f]
  | quit (t : ℕ) (hidle : s.callers t = .idle) :
      Move s (setCaller { s with quit := true } t .quitStored) [.quitCalled t]
  | wakePushed (t : ℕ) (hpushed : s.callers t = .pushed) :
      Move s (setCaller (wakeup s) t .idle) [.returned (some t)]
  | wakeQuit (t : ℕ) (hstored : s.callers t = .quitStored) :
      Move s (setCaller (wakeup s) t .idle) [.quitReturned t]

lemma Move.of_loop {s t : State F} {o : List (Obs F)} (h : loop s = some (t, o)) :
    Move s t o := by
  simp only [loop] at h
  cases hpc : s.pc with
  | test =>
    simp only [hpc, Option.some.injEq, Prod.mk.injEq] at h
    obtain ⟨rfl, rfl⟩ := h
    by_cases hquit : s.quit = true
    · rw [if_pos hquit]
      exact .testQuit hpc hquit
    · rw [if_neg hquit]
      exact .testWait hpc (Bool.not_eq_true _ ▸ hquit)
  | dispatch active =>
    cases active with
    | nil =>
      simp only [hpc, Option.some.injEq, Prod.mk.injEq] at h
      obtain ⟨rfl, rfl⟩ := h
      exact .dispatched hpc
    | cons c active =>
      cases c <;> simp only [hpc, Option.some.injEq, Prod.mk.injEq] at h <;>
        obtain ⟨rfl, rfl⟩ := h
      · exact .read active hpc
      · exact .call _ active hpc
  | functors =>
    simp only [hpc] at h
    cases htemp : s.tempFunctors with
    | nil =>
      simp only [htemp, Option.some.injEq, Prod.mk.injEq] at h
      obtain ⟨rfl, rfl⟩ := h
      simpa only [htemp] using Move.batchDone hpc htemp
    | cons f fs =>
      simp only [htemp, Option.some.injEq, Prod.mk.injEq] at h
      obtain ⟨rfl, rfl⟩ := h
      exact .run f fs hpc htemp
  | enter | clearQuit | setPending | swap | clearPending | leave =>
    simp only [hpc, Option.some.injEq, Prod.mk.injEq] at h
    obtain ⟨rfl, rfl⟩ := h
    constructor
    exact hpc
  | wait | callback | functor | done => simp only [hpc, reduceCtorEq] at h

lemma Move.of_step {s t : State F} {e : Event F} {o : List (Obs F)}
    (h : (system F).step s e = some (t, o)) : Move s t o := by
  change EventLoop.step s e = some (t, o) at h
  cases e with
  | loop =>
    simp only [EventLoop.step] at h
    split at h
    · exact .of_loop h
    · cases h
  | poll before after scan =>
    simp only [EventLoop.step] at h
    split at h <;> cases h
    exact .poll ‹_› before after scan
  | ownQueue f =>
    simp only [EventLoop.step] at h
    split at h <;> cases h
    exact .ownQueue f ‹_›
  | ownWake =>
    simp only [EventLoop.step] at h
    split at h <;> cases h
    exact .ownWake ‹_›
  | ownRun f =>
    simp only [EventLoop.step] at h
    split at h <;> cases h
    exact .ownRun f ‹_›
  | ownQuit =>
    simp only [EventLoop.step] at h
    split at h <;> cases h
    exact .ownQuit ‹_›
  | ownReturn =>
    simp only [EventLoop.step, leaveUserCode, Option.map_eq_some_iff, Prod.mk.injEq] at h
    obtain ⟨u, hu, rfl, rfl⟩ := h
    split at hu
    · rename_i hown
      cases hnested : s.nested with
      | cons f fs =>
        simp only [hnested, Option.some.injEq] at hu
        exact hu ▸ .returnNested f fs hown hnested
      | nil =>
        cases hpc : s.pc with
        | callback active =>
          simp only [hnested, hpc, Option.some.injEq] at hu
          exact hu ▸ hnested ▸ .returnCallback active hown hnested hpc
        | functor =>
          simp only [hnested, hpc, Option.some.injEq] at hu
          exact hu ▸ hnested ▸ .returnFunctor hown hnested hpc
        | _ => simp only [hnested, hpc, reduceCtorEq] at hu
    · cases hu
  | queue t f =>
    simp only [EventLoop.step] at h
    split at h <;> cases h
    exact .queue t f ‹_›
  | quit t =>
    simp only [EventLoop.step] at h
    split at h <;> cases h
    exact .quit t ‹_›
  | wake t =>
    simp only [EventLoop.step] at h
    cases hcall : s.callers t <;> simp only [hcall] at h <;> cases h
    · exact .wakePushed t hcall
    · exact .wakeQuit t hcall

/-! ### The invariant -/

/-- The channels of the current batch of events still to be handled. -/
def active (s : State F) : List Chan :=
  match s.pc with
  | .dispatch active | .callback active => active
  | _ => []

/-- The loop thread will swap `pendingFunctors` before it polls again. -/
def SwapAhead (s : State F) : Prop :=
  match s.pc with
  | .dispatch _ | .callback _ | .setPending | .swap => True
  | _ => False

/-- `doPendingFunctors` has set the flag and not cleared it. -/
def InDoPending (s : State F) : Prop :=
  match s.pc with
  | .swap | .functors | .functor | .clearPending => True
  | _ => False

/-- User code can run on the loop thread. -/
def AtUserCode (s : State F) : Prop :=
  match s.pc with
  | .callback _ | .functor => True
  | _ => False

structure Inv (s : State F) : Prop where
  /-- A counter that was not read is announced, or its channel is in the batch. -/
  announced : 0 < s.wakeupFd.counter → s.wakeupFd.edge = true ∨ .wakeup ∈ active s
  flag : InDoPending s → s.isPendingFunctor = true
  user : s.own ≠ .idle ∨ s.nested ≠ [] → AtUserCode s
  /-- A pending functor is on its way. -/
  served : s.pendingFunctors ≠ [] → SwapAhead s ∨ s.own = .pushed ∨
    (∃ t, s.callers t = .pushed) ∨ s.wakeupFd.Undelivered

lemma inv_init : Inv (init F) where
  announced := by simp [init]
  flag := by simp [InDoPending, init]
  user := by simp [init]
  served := by simp [init]

/-- A channel that is still to be handled is in a round whose swap is still to come. -/
lemma swapAhead_of_mem_active {s : State F} {c : Chan} (h : c ∈ active s) : SwapAhead s := by
  cases hpc : s.pc with
  | dispatch | callback => simp [SwapAhead, hpc]
  | _ => simp [active, hpc] at h

/-- A wakeup is delivered, unless the loop thread has the channel in its batch already. -/
lemma Inv.wakeup_undelivered {s : State F} (hi : Inv s) :
    SwapAhead s ∨ (wakeup s).wakeupFd.Undelivered := by
  by_cases hahead : SwapAhead s
  · exact .inl hahead
  · refine .inr (Eventfd.undelivered_write ?_)
    intro hpos
    rcases hi.announced hpos with hedge | hmem
    · exact hedge
    · exact absurd (swapAhead_of_mem_active hmem) hahead

/-- User code runs in a callback, before the swap, or in a functor, where the flag is set. -/
lemma AtUserCode.cases {s : State F} (h : AtUserCode s) : SwapAhead s ∨ InDoPending s := by
  cases hpc : s.pc with
  | callback => simp [SwapAhead, hpc]
  | functor => simp [InDoPending, hpc]
  | _ => simp [AtUserCode, hpc] at h

lemma InUserCode.atUserCode {s : State F} (hi : Inv s) (h : InUserCode s) : AtUserCode s := by
  obtain ⟨-, hnested | hpc⟩ := h
  · exact hi.user (.inr hnested)
  · exact hpc

/-! ### The invariant is kept -/

/-- A step of the loop thread alone: it goes on to a point that keeps what others rely on. -/
lemma Inv.goto {s t : State F} (hi : Inv s) (hfd : t.wakeupFd = s.wakeupFd)
    (hpending : t.pendingFunctors = s.pendingFunctors) (hown : t.own = s.own)
    (hnested : t.nested = s.nested) (hcallers : t.callers = s.callers)
    (hactive : .wakeup ∈ active s → .wakeup ∈ active t)
    (hflag : InDoPending t → t.isPendingFunctor = true)
    (huser : AtUserCode s → AtUserCode t) (hahead : SwapAhead s → SwapAhead t) : Inv t where
  announced := by
    rw [hfd]
    intro hpos
    exact (hi.announced hpos).imp_right hactive
  flag := hflag
  user := by
    rw [hown, hnested]
    intro h
    exact huser (hi.user h)
  served := by
    rw [hpending, hown, hcallers, hfd]
    intro h
    exact (hi.served h).imp_left hahead

/-- A call of another thread gets to its `wakeup`. -/
lemma Inv.wake {s : State F} (hi : Inv s) (t : ℕ) : Inv (setCaller (wakeup s) t .idle) where
  announced := by
    intro _
    rcases Nat.eq_zero_or_pos s.wakeupFd.counter with hzero | hpos
    · exact .inl (Eventfd.undelivered_write (by omega)).1
    · rcases hi.announced hpos with hedge | hmem
      · exact .inl (Eventfd.undelivered_write fun _ => hedge).1
      · exact .inr hmem
  flag := hi.flag
  user := hi.user
  served := by
    intro _
    rcases hi.wakeup_undelivered with hahead | hdeliver
    · exact .inl hahead
    · exact .inr (.inr (.inr hdeliver))

/-- Only the callers change, and none of them leaves the point before its `wakeup`. -/
lemma Inv.callers {s t : State F} (hi : Inv s) (hpc : t.pc = s.pc)
    (hfd : t.wakeupFd = s.wakeupFd) (hflag : t.isPendingFunctor = s.isPendingFunctor)
    (hown : t.own = s.own) (hnested : t.nested = s.nested)
    (hserved : t.pendingFunctors ≠ [] → (∃ i, t.callers i = .pushed) ∨
      s.pendingFunctors ≠ [] ∧ ∀ i, s.callers i = .pushed → t.callers i = .pushed) : Inv t where
  announced := by
    rw [hfd]
    simpa only [active, hpc] using hi.announced
  flag := by
    rw [hflag]
    simpa only [InDoPending, hpc] using hi.flag
  user := by
    rw [hown, hnested]
    simpa only [AtUserCode, hpc] using hi.user
  served := by
    intro h
    rcases hserved h with hpushed | ⟨hpending, hkeep⟩
    · exact .inr (.inr (.inl hpushed))
    · rw [hown, hfd]
      rcases hi.served hpending with hahead | hown | ⟨i, hpushed⟩ | hdeliver
      · left
        simpa only [SwapAhead, hpc] using hahead
      · exact .inr (.inl hown)
      · exact .inr (.inr (.inl ⟨i, hkeep i hpushed⟩))
      · exact .inr (.inr (.inr hdeliver))

/-- The end of a call of `queueInLoop` on the loop thread. -/
lemma Inv.ownWake {s : State F} (hi : Inv s) (hown : s.own = .pushed) :
    Inv { (if s.isPendingFunctor then wakeup s else s) with own := .idle } := by
  have huser : AtUserCode s := hi.user (.inl (by simp [hown]))
  by_cases hflag : s.isPendingFunctor = true
  · rw [if_pos hflag]
    have hw := hi.wake 0
    refine ⟨hw.announced, hi.flag, fun _ => huser, fun _ => ?_⟩
    rcases hi.wakeup_undelivered with hahead | hdeliver
    · exact .inl hahead
    · exact .inr (.inr (.inr hdeliver))
  · rw [if_neg hflag]
    -- without the flag the code runs in a callback, and the swap of this round is still to come
    have hahead : SwapAhead s := huser.cases.resolve_right fun h => hflag (hi.flag h)
    exact ⟨hi.announced, hi.flag, fun _ => huser, fun _ => .inl hahead⟩

/-- What a poll takes out of the ready list is in the batch it reports. -/
lemma Inv.poll {s : State F} (hi : Inv s) (hpc : s.pc = .wait) (before after : List ℕ)
    (scan : Bool) :
    Inv { s with wakeupFd := if scan then s.wakeupFd.poll else s.wakeupFd
                 pc := .dispatch (reported s before after scan) } where
  announced := by
    intro hpos
    cases scan with
    | false =>
      left
      simpa [active, hpc] using hi.announced hpos
    | true =>
      right
      have hedge : s.wakeupFd.edge = true := by simpa [active, hpc] using hi.announced hpos
      have hmem : s.wakeupFd.Undelivered := ⟨hedge, hpos⟩
      simp [active, reported, hmem]
  flag := by simp [InDoPending]
  user := by
    intro h
    have huser := hi.user h
    simp [AtUserCode, hpc] at huser
  served := by
    intro _
    exact .inl trivial

lemma Inv.move {s t : State F} {o : List (Obs F)} (hi : Inv s) (h : Move s t o) : Inv t := by
  cases h with
  | enter hpc | clearQuit hpc | testQuit hpc _ | testWait hpc _ | clearPending hpc | leave hpc
  | setPending hpc | dispatched hpc | call _ _ hpc =>
    refine hi.goto rfl rfl rfl rfl rfl ?_ ?_ ?_ ?_ <;>
      simp [active, InDoPending, AtUserCode, SwapAhead, hpc]
  | run _ _ hpc _ | batchDone hpc _ =>
    have hflag := hi.flag (by simp [InDoPending, hpc])
    refine hi.goto rfl rfl rfl rfl rfl ?_ ?_ ?_ ?_ <;>
      simp [active, AtUserCode, SwapAhead, hpc, hflag]
  | poll hpc before after scan => exact hi.poll hpc before after scan
  | read rest hpc =>
    constructor
    · simp [handleRead]
    · simp [InDoPending]
    · intro h
      have huser := hi.user h
      simp [AtUserCode, hpc] at huser
    · intro _
      exact .inl trivial
  | swap hpc =>
    have hflag := hi.flag (by simp [InDoPending, hpc])
    constructor
    · intro hpos
      simpa [active, hpc] using hi.announced hpos
    · intro _
      exact hflag
    · intro h
      have huser := hi.user h
      simp [AtUserCode, hpc] at huser
    · simp
  | ownQueue f huser =>
    have hat : AtUserCode s := huser.atUserCode hi
    exact ⟨hi.announced, hi.flag, fun _ => hat, fun _ => .inr (.inl rfl)⟩
  | ownWake hown => exact hi.ownWake hown
  | ownRun f huser =>
    have hat : AtUserCode s := huser.atUserCode hi
    exact ⟨hi.announced, hi.flag, fun _ => hat, hi.served⟩
  | ownQuit huser => exact ⟨hi.announced, hi.flag, hi.user, hi.served⟩
  | returnNested f fs hown hnested =>
    have huser : AtUserCode s := hi.user (.inr (by simp [hnested]))
    exact ⟨hi.announced, hi.flag, fun _ => huser, hi.served⟩
  | returnCallback rest hown hnested hpc =>
    constructor
    · intro hpos
      simpa [active, hpc] using hi.announced hpos
    · simp [InDoPending]
    · simp [hown, hnested]
    · intro _
      exact .inl trivial
  | returnFunctor hown hnested hpc =>
    have hflag := hi.flag (by simp [InDoPending, hpc])
    constructor
    · intro hpos
      simpa [active, hpc] using hi.announced hpos
    · intro _
      exact hflag
    · simp [hown, hnested]
    · intro hpending
      simpa [SwapAhead, hpc] using hi.served hpending
  | queue t f hidle =>
    refine hi.callers rfl rfl rfl rfl rfl fun _ => .inl ⟨t, ?_⟩
    simp [setCaller]
  | quit t hidle =>
    refine hi.callers rfl rfl rfl rfl rfl fun hpending => .inr ⟨hpending, ?_⟩
    intro i hpushed
    have hne : i ≠ t := by
      rintro rfl
      rw [hidle] at hpushed
      cases hpushed
    simpa [setCaller, hne] using hpushed
  | wakePushed t _ | wakeQuit t _ => exact hi.wake t

lemma inv_of_reachable {s : State F} (h : (system F).Reachable s) : Inv s :=
  h.invariant inv_init fun _ _ _ _ _ hi he => hi.move (.of_step he)

/-! ### No lost functor -/

/-- The loop thread is never blocked in `epoll_wait` while a functor is pending, every call of
`queueInLoop` has returned and no readiness of `wakeupFd_` is undelivered. -/
theorem not_blocked_on_pending {s : State F} (h : (system F).Reachable s) :
    ¬(s.pc = .wait ∧ s.pendingFunctors ≠ [] ∧ (∀ t, s.callers t ≠ .pushed) ∧
      ¬s.wakeupFd.Undelivered) := by
  rintro ⟨hpc, hpending, hreturned, hdeliver⟩
  have hi := inv_of_reachable h
  rcases hi.served hpending with hahead | hown | ⟨t, hpushed⟩ | hundelivered
  · simp [SwapAhead, hpc] at hahead
  · have huser := hi.user (.inl (by simp [hown]))
    simp [AtUserCode, hpc] at huser
  · exact hreturned t hpushed
  · exact hdeliver hundelivered

/-- The rule at work where a call stands before its `wakeup` and the loop thread sleeps. -/
theorem not_blocked_on_pending_queued :
    ∃ s, (system ℕ).Reachable s ∧ s.pc = .wait ∧ s.pendingFunctors = [7] ∧
      ¬(s.pc = .wait ∧ s.pendingFunctors ≠ [] ∧ (∀ t, s.callers t ≠ .pushed) ∧
        ¬s.wakeupFd.Undelivered) := by
  obtain ⟨s, obs, hexec, hpc, hpending⟩ : ∃ s obs,
      (system ℕ).exec (init ℕ) [.loop, .loop, .loop, .queue 1 7] = some (s, obs) ∧
        s.pc = .wait ∧ s.pendingFunctors = [7] := ⟨_, _, rfl, rfl, rfl⟩
  have hreach : (system ℕ).Reachable s := ⟨obs, .of_exec _ hexec⟩
  exact ⟨s, hreach, hpc, hpending, not_blocked_on_pending hreach⟩

end ClwServer.EventLoop
