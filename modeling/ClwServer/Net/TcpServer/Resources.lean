import ClwServer.Net.TcpServer.Life

/-!
# What a server keeps

A descriptor is open as long as a connection lives on it, and a moment before that; what is in an
interest list is alive. When all loops have come to rest, the interest lists and the map hold the
same connections, and as soon as the application has dropped its copies and the destructors have
run, the open descriptors are the keys of the map.
-/

namespace ClwServer.TcpServer

variable {n : ℕ} {s t : State n} {l i : Fin (n + 1)} {c d : ConnId} {fd : ℕ}
  {obs o : List Obs}

/-! ### The open descriptors -/

/-- The descriptor belongs to a living connection, or was just accepted. -/
inductive Owned (s : State n) (fd : ℕ) : Prop
  | lives (c : ConnId) (hc : Lives s c fd)
  | accepted (hpc : (s.loops 0).pc = .accepted fd)

lemma accepted_setLoop {L : Loop} (hl : (s.loops l).pc ≠ .accepted fd)
    (h : (s.loops 0).pc = .accepted fd) : ((setLoop s l L).loops 0).pc = .accepted fd := by
  rw [pc_setLoop, if_neg]
  · exact h
  · rintro rfl
    exact hl h

/-- Only `newConnection` takes the new descriptor. -/
lemma Move.accepted (hm : Move s t o) (h : (s.loops 0).pc = .accepted fd) :
    (t.loops 0).pc = .accepted fd ∨ ∃ c, Lives t c fd := by
  cases hm with
  | create c l fd' hpc hc =>
    right
    rw [hpc] at h
    cases h
    refine ⟨c, ⟨fd, l, false, 0, true⟩, ?_, rfl, rfl⟩
    simp
  | accept fd' hpc hfd =>
    rw [hpc] at h
    cases h
  | establish l c k hpc hk | disconnect l c k hpc hk =>
    left
    apply accepted_setLoop
    · rw [pc_runInLoop, hpc]
      simp
    · rw [pc_runInLoop, h]
  | erase l c k hpc hk => exact .inl (accepted_setLoop (by rw [hpc]; simp) h)
  | returnNew l c hpc | callback l c k hpc _ _ | close l c hpc _ | returnClose l c hpc
  | leave l c hpc | swap l hpc | batchDone l hpc _ =>
    exact .inl (accepted_setLoop (by rw [hpc]; simp) h)
  | run l task todo hpc htodo =>
    left
    rw [pc_runTask]
    exact accepted_setLoop (by rw [hpc]; simp) h
  | keep | drop | destroy => exact .inl h

/-- A connection goes on living, or its destructor closes its descriptor. -/
lemma Move.lives (hm : Move s t o) (h : Lives s c fd) :
    Lives t c fd ∨ fd ∉ t.openFds := by
  cases hm with
  | create d l fd' hpc hd =>
    left
    exact (lives_create hd rfl).mpr (.inr h)
  | destroy d k hk halive hheld =>
    by_cases hdc : c = d
    · subst hdc
      obtain ⟨k', hk', -, rfl⟩ := h
      obtain rfl : k = k' := Option.some.inj (hk.symm.trans hk')
      exact .inr (Finset.notMem_erase _ _)
    · left
      simpa [Lives, updateConn, hdc] using h
  | establish | disconnect => exact .inl (lives_runInLoop.mpr h)
  | run => exact .inl (lives_runTask.mpr h)
  | keep | drop => refine .inl ((lives_updateConn ?_ ?_).mpr h) <;> exact fun _ => rfl
  | accept | returnNew | callback | close | erase | returnClose | leave | swap | batchDone =>
    exact .inl h

/-- Only `accept4` opens a descriptor. -/
lemma Move.openFds (hm : Move s t o) (h : fd ∈ t.openFds) :
    fd ∈ s.openFds ∨ (t.loops 0).pc = .accepted fd := by
  cases hm with
  | accept fd' hpc hfd =>
    rcases Finset.mem_insert.mp h with rfl | hold
    · right
      simp [setPc, setLoop]
    · exact .inl hold
  | destroy d k hk halive hheld => exact .inl (Finset.mem_of_mem_erase h)
  | establish l c k | disconnect l c k =>
    left
    rcases runInLoop_cases s l k.loop _ with heq | heq <;> rw [heq] at h <;> exact h
  | run l task => left; cases task <;> exact h
  | create | returnNew | callback | close | erase | returnClose | leave | swap | batchDone | keep
  | drop => exact .inl h

lemma owned_of_reachable (h : (system n).Reachable s) : ∀ fd ∈ s.openFds, Owned s fd := by
  refine h.invariant (P := fun s => ∀ fd ∈ s.openFds, Owned s fd) (by simp [init, system]) ?_
  intro s e t o hr hs hstep fd hfd
  have hm := Move.of_step hstep
  rcases hm.openFds hfd with hold | hnew
  · cases hs fd hold with
    | lives c hc => exact .lives c ((hm.lives hc).resolve_right (not_not_intro hfd))
    | accepted hpc =>
      rcases hm.accepted hpc with hkept | ⟨c, hc⟩
      · exact .accepted hkept
      · exact .lives c hc
  · exact .accepted hnew

/-! ### The interest lists -/

/-- What is in an interest list is in the map, or is being removed by the thread of its loop. -/
lemma held_of_registered {k : Conn n} (h : (system n).Run obs s) (hk : s.conns c = some k)
    (hreg : k.registered = true) :
    s.connectionMap.lookup k.fd = some c ∨ (s.loops k.loop).pc = .erased c := by
  obtain ⟨st, -, hholds⟩ := life_of_run h c
  cases hholds with
  | absent hnone =>
    rw [hnone] at hk
    cases hk
  | present k' _ hk' hat =>
    obtain rfl : k = k' := Option.some.inj (hk.symm.trans hk')
    rcases hat.registered.mp hreg with rfl | rfl
    · exact .inl (hat.mapped.mpr (.inr rfl))
    · exact .inr (hat.erased.mpr (.inl rfl))

/-- A connection in an interest list has not been destroyed, and somebody points to it. -/
lemma alive_of_registered {k : Conn n} (h : (system n).Reachable s) (hk : s.conns c = some k)
    (hreg : k.registered = true) : k.alive = true ∧ Held s c := by
  have hi := inv_of_reachable h
  obtain ⟨obs, hrun⟩ := h
  have hheld : Held s c := by
    rcases held_of_registered hrun hk hreg with hlookup | hpc
    · exact held_of_lookup hlookup
    · exact held_of_ref (l := k.loop) (by rw [hpc]; rfl)
  obtain ⟨fd, k', hk', halive, -⟩ := hi.held c hheld
  obtain rfl : k = k' := Option.some.inj (hk.symm.trans hk')
  exact ⟨halive, hheld⟩

/-- No interest list holds the channel of a destroyed connection, and the open descriptors are
exactly those of the living connections and the one just accepted. -/
theorem resources_exact (h : (system n).Reachable s) :
    (∀ c k, s.conns c = some k → k.registered = true → k.alive = true ∧ Held s c) ∧
    ∀ fd, fd ∈ s.openFds ↔ Owned s fd := by
  have hi := inv_of_reachable h
  constructor
  · intro c k hk hreg
    exact alive_of_registered h hk hreg
  · intro fd
    refine ⟨owned_of_reachable h fd, ?_⟩
    rintro (⟨c, hc⟩ | hpc)
    · exact hi.opened c fd hc
    · exact (hi.accepted fd hpc).1

/-- A registered connection. -/
theorem resources_exact_registered : ∃ s : State 1, (system 1).Reachable s ∧ 5 ∈ s.openFds ∧
    Owned s 5 ∧ ∃ k, s.conns 0 = some k ∧ k.registered = true ∧ k.alive = true := by
  obtain ⟨s, obs, k, hexec, hk, hreg, hfd⟩ : ∃ s obs k, (system 1).exec (init 1)
      [.accept 5, .create 0 1, .next 0, .next 0, .swap 1, .next 1] = some (s, obs) ∧
      s.conns 0 = some k ∧ k.registered = true ∧ 5 ∈ s.openFds :=
    ⟨_, _, _, rfl, rfl, rfl, by decide⟩
  have hrun : (system 1).Run obs s := .of_exec _ hexec
  obtain ⟨halive, howned⟩ := resources_exact hrun.reachable
  exact ⟨s, hrun.reachable, hfd, (howned 5).mp hfd, k, hk, hreg, (halive 0 k hk hreg).1⟩

/-! ### At rest -/

/-- No loop does anything, and none has anything to do. -/
def AtRest (s : State n) : Prop :=
  ∀ l, (s.loops l).pc = .idle ∧ (s.loops l).pendingFunctors = []

lemma AtRest.awaiting (h : AtRest s) (hconf : Confined s) (c : ConnId) : awaiting s c = 0 := by
  refine Finset.sum_eq_zero fun l _ => ?_
  obtain ⟨hpc, hpending⟩ := h l
  simp [Loop.awaits, hpc, hpending, (hconf.whole l (by rw [hpc]; simp)).2]

/-- At rest only the map and the application point to connections. -/
lemma AtRest.held (h : AtRest s) (hconf : Confined s) (hheld : Held s c) :
    (∃ fd, s.connectionMap.lookup fd = some c) ∨ 0 < kept s c := by
  rcases hheld with ⟨⟨fd, c⟩, hmem, rfl⟩ | ⟨l, hl⟩ | hkept
  · exact .inl ⟨fd, AList.mem_lookup_iff.mpr hmem⟩
  · obtain ⟨hpc, hpending⟩ := h l
    obtain ⟨hran, htodo⟩ := hconf.whole l (by rw [hpc]; simp)
    simp [Loop.refs, Loop.tasks, Pc.ref, hpc, hpending, hran, htodo] at hl
  · exact .inr hkept

/-- At rest the interest lists and the map agree, and if moreover nobody but the map keeps a
connection and no destructor is due, the open descriptors are the keys of the map. -/
theorem atRest_exact (h : (system n).Reachable s) (hrest : AtRest s) :
    (∀ c k, s.conns c = some k →
      (k.registered = true ↔ s.connectionMap.lookup k.fd = some c)) ∧
    ((∀ c, kept s c = 0) → (∀ c fd, Lives s c fd → Held s c) →
      ∀ fd, fd ∈ s.openFds ↔ fd ∈ s.connectionMap) := by
  have hconf := confined_of_reachable h
  have hi := inv_of_reachable h
  constructor
  · intro c k hk
    obtain ⟨obs, hrun⟩ := h
    obtain ⟨st, -, hholds⟩ := life_of_run hrun c
    cases hholds with
    | absent hnone =>
      rw [hnone] at hk
      cases hk
    | present k' _ hk' hat =>
      obtain rfl : k = k' := Option.some.inj (hk.symm.trans hk')
      -- nothing waits and nobody is in `removeConnection`
      have hcreated : st ≠ .created := by
        rintro rfl
        have hone := hat.awaiting
        rw [hrest.awaiting hconf] at hone
        cases hone
      have herased : st ≠ .erased := by
        rintro rfl
        have hpc := hat.erased.mpr (.inl rfl)
        rw [(hrest k.loop).1] at hpc
        cases hpc
      rw [hat.registered, hat.mapped]
      simp [hcreated, herased]
  · intro hkept hdue fd
    constructor
    · intro hopen
      rcases owned_of_reachable h fd hopen with ⟨c, hc⟩ | hpc
      · rcases hrest.held hconf (hdue c fd hc) with ⟨fd', hlookup⟩ | hpos
        · obtain ⟨k, hk, -, rfl⟩ := hc
          obtain ⟨k', hk', -, rfl⟩ := hi.entry fd' c hlookup
          obtain rfl : k = k' := Option.some.inj (hk.symm.trans hk')
          rw [← AList.lookup_isSome, hlookup]
          rfl
        · exact absurd (hkept c) (Nat.ne_of_gt hpos)
      · rw [(hrest 0).1] at hpc
        cases hpc
    · intro hmem
      obtain ⟨c, hlookup⟩ := Option.isSome_iff_exists.mp (AList.lookup_isSome.mpr hmem)
      exact hi.opened c fd (hi.entry fd c hlookup)

/-- Two connections have come, and one of them has gone. -/
theorem atRest_exact_one : ∃ s : State 1, (system 1).Reachable s ∧ AtRest s ∧
    (∃ k, s.conns 1 = some k ∧ k.registered = true) ∧ 5 ∉ s.openFds ∧ 6 ∈ s.openFds := by
  obtain ⟨s, obs, k, hexec, hrest, hk, hlookup, hkept, hdue, h5, h6⟩ : ∃ s obs k,
      (system 1).exec (init 1)
        [.accept 5, .create 0 1, .next 0, .next 0, .swap 1, .next 1, .next 1, .callback 1 0,
          .close 1, .next 1, .next 1, .next 1, .leave 1, .destroy 0, .accept 6, .create 1 1,
          .next 0, .next 0, .swap 1, .next 1, .next 1] = some (s, obs) ∧
      (∀ l, (s.loops l).pc = .idle ∧ (s.loops l).pendingFunctors = []) ∧
      s.conns 1 = some k ∧ s.connectionMap.lookup k.fd = some 1 ∧ (∀ c, kept s c = 0) ∧
      (∀ c fd, Lives s c fd → Held s c) ∧ 5 ∉ s.connectionMap ∧ 6 ∈ s.connectionMap := by
    refine ⟨_, _, _, rfl, by decide, rfl, rfl, fun c => ?_, fun c fd h => ?_, by decide, by decide⟩
    · rcases c with _ | _ | c <;> rfl
    · rcases c with _ | _ | c
      · obtain ⟨k, hk, halive, -⟩ := h
        cases hk
        cases halive
      · decide
      · obtain ⟨k, hk, -⟩ := h
        cases hk
  have hr : (system 1).Reachable s := (System.Run.of_exec _ hexec).reachable
  obtain ⟨hregistered, hopen⟩ := atRest_exact hr hrest
  have hfds := hopen hkept hdue
  exact ⟨s, hr, hrest, ⟨k, hk, (hregistered 1 k hk).mpr hlookup⟩, fun h => h5 ((hfds 5).mp h),
    (hfds 6).mpr h6⟩

end ClwServer.TcpServer
