import ClwServer.Base.AsyncLogging.Invariant

/-!
# The destructor returns

`~AsyncLogging` joins the backend. Behind the flag there is at most one round to come, and
`buffersToWrite` has 25 buffers at the most when it is written: whatever the front end does
meanwhile, the backend returns after a few steps.
-/

namespace ClwServer.AsyncLogging

open Cpp

/-- The events of the backend thread. -/
def Event.ofBackend : Event → Bool
  | .backend | .wake => true
  | .append _ _ | .start | .clear => false

/-- The destructor has begun, and has cleared the flag. -/
def Ending (s : State) : Prop := s.closing = true ∧ s.running = false

/-- How many steps the backend has left at the most, where `running_` is false. -/
def remaining (s : State) : ℕ :=
  match s.pc with
  | .notStarted | .done => 0
  | .lastFlush => 1
  | .head => 2
  | .entry | .flush => 3
  | .refill2 => 4
  | .refill1 => 5
  | .resize => 6
  | .write i => 7 + (s.buffersToWrite.length - i)
  | .drop => 8 + if 25 < s.buffersToWrite.length then 2 else s.buffersToWrite.length
  | .waiting => 34
  | .lock => 35

variable {s t : State} {e : Event} {o obs : List Obs}

/-! ### The flag -/

lemma ending_of_closing (h : system.Reachable s) (hclosing : s.closing = true) : Ending s := by
  refine ⟨hclosing, h.invariant (P := fun s => s.closing = true → s.running = false) nofun ?_
    hclosing⟩
  intro s e t o hr hs hstep
  cases Move.of_step (inv_of_reachable hr) hstep with
  | start _ hfalse => simp [hfalse]
  | clear => exact fun _ => rfl
  | swap => simpa using hs
  | drop =>
    rcases drop_cases s with ⟨-, heq⟩ | heq <;> rw [heq] <;> exact hs
  | put | fill | entry | head | sleep | write | written | resize | refill1 | refill2 | keep2
  | flush | lastFlush => exact hs

/-! ### The batch -/

/-- What the drop section leaves of the batch. -/
lemma length_drop (s : State) : (drop s).1.buffersToWrite.length =
    if 25 < s.buffersToWrite.length then 2 else s.buffersToWrite.length := by
  simp only [drop]
  split
  · rw [List.length_take]
    omega
  · rfl

/-- A batch that is written has 25 buffers at the most. -/
lemma length_le_of_write (h : system.Reachable s) {i : ℕ} (hpc : s.pc = .write i) :
    s.buffersToWrite.length ≤ 25 := by
  refine h.invariant (P := fun s => ∀ i, s.pc = .write i → s.buffersToWrite.length ≤ 25) nofun ?_
    i hpc
  intro s e t o hr hs hstep i hi
  cases Move.of_step (inv_of_reachable hr) hstep with
  | drop =>
    show (drop s).1.buffersToWrite.length ≤ 25
    rw [length_drop]
    split <;> omega
  | put | fill | clear => exact hs i hi
  | write j b hpc => exact hs j hpc
  | head => cases hrun : s.running <;> simp [hrun] at hi
  | start | entry | sleep | swap | written | resize | refill1 | refill2 | keep2 | flush
  | lastFlush => simp at hi

lemma remaining_le (h : system.Reachable s) : remaining s ≤ 35 := by
  rw [remaining]
  cases hpc : s.pc with
  | write i =>
    have hlen := length_le_of_write h hpc
    simp only
    omega
  | drop =>
    simp only
    split <;> omega
  | _ => simp

/-! ### The steps -/

lemma remaining_swap : remaining { swap s with pc := .drop } ≤ 33 := by
  simp only [remaining]
  split <;> omega

/-- A step of the backend uses up one of those it has left. -/
lemma remaining_threadFunc (hrunning : s.running = false)
    (h : threadFunc s = some (.ok (t, o))) :
    t.closing = s.closing ∧ t.running = false ∧ remaining t < remaining s := by
  simp only [threadFunc] at h
  cases hpc : s.pc with
  | notStarted | waiting | done => simp only [hpc, reduceCtorEq] at h
  | entry | flush | lastFlush | resize =>
    simp only [hpc, Option.some.injEq, Except.ok.injEq, Prod.mk.injEq] at h
    obtain ⟨rfl, -⟩ := h
    exact ⟨rfl, hrunning, by simp [remaining, hpc]⟩
  | head =>
    simp only [hpc, Option.some.injEq, Except.ok.injEq, Prod.mk.injEq] at h
    obtain ⟨rfl, -⟩ := h
    exact ⟨rfl, hrunning, by simp [remaining, hpc, hrunning]⟩
  | lock =>
    simp only [hpc] at h
    split at h <;> cases h
    · exact ⟨rfl, hrunning, by simp [remaining, hpc]⟩
    · refine ⟨by simp, by simpa using hrunning, Nat.lt_of_le_of_lt remaining_swap ?_⟩
      simp [remaining, hpc]
  | drop =>
    simp only [hpc, Option.some.injEq, Except.ok.injEq, Prod.mk.injEq] at h
    obtain ⟨rfl, -⟩ := h
    have hlen := length_drop s
    refine ⟨?_, ?_, ?_⟩
    · rcases drop_cases s with ⟨-, heq⟩ | heq <;> rw [heq]
    · rcases drop_cases s with ⟨-, heq⟩ | heq <;> rw [heq] <;> exact hrunning
    · simp only [remaining, hpc]
      omega
  | write i =>
    simp only [hpc] at h
    split at h
    · rename_i p hp
      have hlt := (List.getElem?_eq_some_iff.mp hp).1
      cases p with
      | none => cases h
      | some b =>
        cases h
        refine ⟨rfl, hrunning, ?_⟩
        simp only [remaining, hpc]
        omega
    · cases h
      refine ⟨rfl, hrunning, ?_⟩
      simp only [remaining, hpc]
      omega
  | refill1 =>
    simp only [hpc] at h
    cases hrefill : refill s.newBuffer1 s.buffersToWrite with
    | error => rw [hrefill] at h; cases h
    | ok r =>
      rw [hrefill] at h
      cases h
      exact ⟨rfl, hrunning, by simp [remaining, hpc]⟩
  | refill2 =>
    simp only [hpc] at h
    cases hrefill : refill s.newBuffer2 s.buffersToWrite with
    | error => rw [hrefill] at h; cases h
    | ok r =>
      rw [hrefill] at h
      cases h
      exact ⟨rfl, hrunning, by simp [remaining, hpc]⟩

/-- The front end leaves the backend where it is. -/
lemma append_keeps (hr : system.Reachable s) {tid : ℕ} {logline : List Byte}
    (h : system.step s (.append tid logline) = some (t, o)) :
    t.closing = s.closing ∧ t.running = s.running ∧ t.pc = s.pc ∧
      t.buffersToWrite = s.buffersToWrite := by
  have hexec := step_eq_some.mp h
  simp only [exec] at hexec
  split at hexec
  · rename_i hlen
    obtain ⟨u, happ, hmove⟩ := append_spec (inv_of_reachable hr) tid hlen
    rw [happ, ok_map] at hexec
    cases hexec
    generalize hobs : [Obs.appended tid logline] = o at hmove
    cases hmove with
    | put | fill => exact ⟨rfl, rfl, rfl, rfl⟩
    | drop => rcases drop_cases s with ⟨-, heq⟩ | heq <;> rw [heq] at hobs <;> cases hobs
    | _ => cases hobs
  · cases hexec

lemma started_step (hr : system.Reachable s) (h : system.step s e = some (t, o))
    (hs : s.pc ≠ .notStarted) : t.pc ≠ .notStarted := by
  cases Move.of_step (inv_of_reachable hr) h with
  | put | fill | clear => exact hs
  | head =>
    show (if s.running then _ else _) ≠ _
    split <;> nofun
  | _ => nofun

/-- While the destructor waits, a step of the backend uses up one of those it has left, and one of
the front end none. -/
lemma remaining_step (hr : system.Reachable s) (hs : Ending s)
    (h : system.step s e = some (t, o)) :
    Ending t ∧ remaining t + [e].countP Event.ofBackend ≤ remaining s := by
  have hexec := step_eq_some.mp h
  cases e with
  | append tid logline =>
    obtain ⟨hclosing, hrunning, hpc, hbatch⟩ := append_keeps hr h
    refine ⟨⟨hclosing.trans hs.1, hrunning.trans hs.2⟩, ?_⟩
    rw [remaining, remaining, hpc, hbatch]
    exact Nat.le_refl _
  | start =>
    simp only [exec, hs.1] at hexec
    simp at hexec
  | clear =>
    simp only [exec, hs.1] at hexec
    simp at hexec
  | backend =>
    obtain ⟨hclosing, hrunning, hlt⟩ := remaining_threadFunc hs.2 hexec
    exact ⟨⟨hclosing.trans hs.1, hrunning⟩, hlt⟩
  | wake =>
    simp only [exec] at hexec
    split at hexec <;> cases hexec
    rename_i hpc
    refine ⟨⟨by simpa using hs.1, by simpa using hs.2⟩, ?_⟩
    exact Nat.lt_of_le_of_lt remaining_swap (by simp [remaining, hpc])

/-- As long as the backend has not returned it has a step, or its `timedwait` comes to its end. -/
lemma exists_backend (h : system.Reachable s) (hstarted : s.pc ≠ .notStarted)
    (hdone : s.pc ≠ .done) : ∃ e t o, e.ofBackend = true ∧ system.step s e = some (t, o) := by
  by_cases hpc : s.pc = .waiting
  · exact ⟨.wake, _, _, rfl, step_eq_some.mpr (if_pos hpc)⟩
  · obtain ⟨r, hr⟩ : ∃ r, threadFunc s = some r := by
      simp only [threadFunc]
      cases hpc' : s.pc with
      | notStarted => exact absurd hpc' hstarted
      | waiting => exact absurd hpc' hpc
      | done => exact absurd hpc' hdone
      | lock =>
        simp only
        split <;> exact ⟨_, rfl⟩
      | write i =>
        simp only
        split <;> exact ⟨_, rfl⟩
      | _ => exact ⟨_, rfl⟩
    obtain ⟨t, o, rfl, -⟩ := exec_spec (e := .backend) (inv_of_reachable h) hr
    exact ⟨.backend, t, o, rfl, step_eq_some.mpr hr⟩

/-- Once `~AsyncLogging` has cleared the flag, whatever the front end still appends: the backend
takes 35 steps at the most, and it has one until it has returned. -/
theorem backend_returns {es : List Event} (h : system.Reachable s) (hclosing : s.closing = true)
    (hstarted : s.pc ≠ .notStarted) (hexec : system.exec s es = some (t, obs)) :
    es.countP Event.ofBackend ≤ 35 ∧
      (t.pc ≠ .done → ∃ e u o, e.ofBackend = true ∧ system.step t e = some (u, o)) := by
  obtain ⟨hr, hended, hstarted', hleft⟩ := System.exec_invariant (P := fun es _ u =>
    system.Reachable u ∧ Ending u ∧ u.pc ≠ .notStarted ∧
      remaining u + es.countP Event.ofBackend ≤ remaining s) hexec
    ⟨h, ending_of_closing h hclosing, hstarted, by simp⟩ fun es obs u e v o hu hstep => by
      obtain ⟨⟨obs', hrun⟩, hended, hstarted, hleft⟩ := hu
      obtain ⟨hended', hle⟩ := remaining_step hrun.reachable hended hstep
      refine ⟨(hrun.step hstep).reachable, hended', started_step hrun.reachable hstep hstarted, ?_⟩
      rw [List.countP_append]
      omega
  have hle := remaining_le h
  exact ⟨by omega, exists_backend hr hstarted'⟩

/-- The destructor finds the backend asleep, and the front end appends once more. -/
theorem backend_returns_asleep : ∃ s t es obs, system.Reachable s ∧ s.closing = true ∧
    system.exec s es = some (t, obs) ∧ t.pc = .waiting ∧ es.countP Event.ofBackend ≤ 35 ∧
      ∃ e u o, e.ofBackend = true ∧ system.step t e = some (u, o) := by
  obtain ⟨s, t, obs₀, obs, hexec₀, hclosing, hpc, hexec, hpc'⟩ : ∃ s t obs₀ obs,
      system.exec system.init [.start, .backend, .backend, .backend, .clear] = some (s, obs₀) ∧
      s.closing = true ∧ s.pc = .waiting ∧ system.exec s [.append 1 [104]] = some (t, obs) ∧
      t.pc = .waiting := ⟨_, _, _, _, rfl, rfl, rfl, rfl, rfl⟩
  have hr : system.Reachable s := (System.Run.of_exec _ hexec₀).reachable
  obtain ⟨hcount, hnext⟩ := backend_returns hr hclosing (by rw [hpc]; nofun) hexec
  exact ⟨s, t, _, obs, hr, hclosing, hexec, hpc', hcount, hnext (by rw [hpc']; nofun)⟩

end ClwServer.AsyncLogging
