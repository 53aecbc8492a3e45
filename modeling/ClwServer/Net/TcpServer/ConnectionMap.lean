import ClwServer.Net.TcpServer.Invariant

/-!
# The map is exact

The key of an entry is the descriptor of its connection, and a descriptor is handed out again only
when the destructor of the connection has closed it. The entry is gone by then, so that an
insertion never hits an old entry, and `removeConnection` finds the entry of its own connection or
none.
-/

namespace ClwServer.TcpServer

variable {n : ℕ} {s t : State n} {l : Fin (n + 1)} {c d : ConnId} {fd : ℕ} {obs o : List Obs}

/-! ### What a run has shown -/

structure History (obs : List Obs) (s : State n) : Prop where
  mapped : ∀ c k, s.conns c = some k → (∀ e, .removed c e ∉ obs) →
    s.connectionMap.lookup k.fd = some c
  registered : ∀ c k, s.conns c = some k → k.registered = true → .established c ∈ obs
  handled : ∀ l c, (s.loops l).pc.handled = some c → .established c ∈ obs
  queued : ∀ l c, .connectDestroyed c ∈ (s.loops l).tasks → .established c ∈ obs

lemma history_init : History [] (init n) where
  mapped := by simp [init]
  registered := by simp [init]
  handled := by simp [init, Pc.handled]
  queued := by simp [init, Loop.tasks]

lemma History.append (h : History obs s) (o : List Obs) : History (obs ++ o) s where
  mapped := by
    intro c k hk hremoved
    apply h.mapped c k hk
    intro e he
    exact hremoved e (List.mem_append_left o he)
  registered := fun c k hk hreg => List.mem_append_left o (h.registered c k hk hreg)
  handled := fun l c hc => List.mem_append_left o (h.handled l c hc)
  queued := fun l c hc => List.mem_append_left o (h.queued l c hc)

lemma History.loop {L : Loop} (h : History obs s)
    (hpc : ∀ c, L.pc.handled = some c → .established c ∈ obs)
    (htasks : ∀ c, .connectDestroyed c ∈ L.tasks → .established c ∈ obs) :
    History obs (setLoop s l L) where
  mapped := h.mapped
  registered := h.registered
  handled := by
    intro l' c hc
    by_cases hl : l' = l
    · subst hl
      exact hpc c (by simpa [setLoop] using hc)
    · exact h.handled l' c (by simpa [setLoop, hl] using hc)
  queued := by
    intro l' c hc
    by_cases hl : l' = l
    · subst hl
      exact htasks c (by simpa [setLoop] using hc)
    · exact h.queued l' c (by simpa [setLoop, hl] using hc)

lemma History.pc {pc : Pc} (h : History obs s)
    (hpc : ∀ c, pc.handled = some c → .established c ∈ obs) : History obs (setPc s l pc) :=
  h.loop hpc (h.queued l)

lemma History.conn {f : Conn n → Conn n} (h : History obs s)
    (hfd : ∀ k, (f k).fd = k.fd)
    (hreg : ∀ k, (f k).registered = true → k.registered = true ∨ .established c ∈ obs) :
    History obs (updateConn s c f) where
  mapped := by
    intro d k hk hremoved
    by_cases hdc : d = c
    · subst hdc
      obtain ⟨k', hk', rfl⟩ : ∃ k', s.conns d = some k' ∧ f k' = k := by
        simpa [updateConn] using hk
      rw [hfd]
      exact h.mapped d k' hk' hremoved
    · exact h.mapped d k (by simpa [updateConn, hdc] using hk) hremoved
  registered := by
    intro d k hk hkreg
    by_cases hdc : d = c
    · subst hdc
      obtain ⟨k', hk', rfl⟩ : ∃ k', s.conns d = some k' ∧ f k' = k := by
        simpa [updateConn] using hk
      rcases hreg k' hkreg with hold | hmem
      · exact h.registered d k' hk' hold
      · exact hmem
    · exact h.registered d k (by simpa [updateConn, hdc] using hk) hkreg
  handled := h.handled
  queued := h.queued

lemma History.task (h : History obs s) (task : Task) :
    History (obs ++ (runTask s task).2) (runTask s task).1 := by
  cases task with
  | connectEstablished c =>
    refine (h.append _).conn (fun _ => rfl) ?_
    intro k _
    exact .inr (by simp [runTask])
  | connectDestroyed c =>
    refine (h.append _).conn (fun _ => rfl) ?_
    intro k hreg
    cases hreg

lemma History.functor {l' : Fin (n + 1)} {task : Task} (h : History obs s)
    (htask : ∀ c, task = .connectDestroyed c → .established c ∈ obs) :
    History (obs ++ (runInLoop s l l' task).2) (runInLoop s l l' task).1 := by
  rcases runInLoop_cases s l l' task with heq | heq <;> rw [heq]
  · exact h.task task
  · refine (h.append []).loop ?_ ?_
    · exact (h.append []).handled l'
    · intro c hc
      rw [List.append_nil]
      by_cases hmem : .connectDestroyed c ∈ (s.loops l').tasks
      · exact h.queued l' c hmem
      · apply htask c
        simp only [Loop.tasks, List.mem_append, List.mem_singleton, not_or] at hc hmem
        tauto

lemma History.newConnection (h : History obs s) (hi : Inv s) {l : Fin (n + 1)}
    (hpc : (s.loops 0).pc = .accepted fd) (hc : s.conns c = none) :
    History (obs ++ [.created c]) { setPc s 0 (.inserted c) with
          conns := Function.update s.conns c
            (some { fd := fd, loop := l, registered := false, kept := 0, alive := true })
          connectionMap := s.connectionMap.insert fd c } := by
  have hpcs : History (obs ++ [.created c]) (setPc s 0 (.inserted c)) := by
    apply (h.append _).pc
    simp [Pc.handled]
  refine ⟨?_, ?_, hpcs.handled, hpcs.queued⟩
  · intro d k hk hremoved
    by_cases hdc : d = c
    · subst hdc
      obtain rfl : _ = k := by simpa using hk
      exact AList.lookup_insert _
    · have hd : s.conns d = some k := by simpa [hdc] using hk
      have hlookup := hpcs.mapped d k hd hremoved
      -- the new descriptor belongs to no old connection
      have hfd : k.fd ≠ fd := by
        intro heq
        exact (hi.accepted fd hpc).2 d (heq ▸ hi.entry k.fd d hlookup)
      exact (AList.lookup_insert_ne hfd).trans hlookup
  · intro d k hk hreg
    by_cases hdc : d = c
    · subst hdc
      obtain rfl : _ = k := by simpa using hk
      cases hreg
    · have hd : s.conns d = some k := by simpa [hdc] using hk
      exact hpcs.registered d k hd hreg

lemma History.removeConnection (h : History obs s) (hi : Inv s) {k : Conn n}
    (hpc : (s.loops l).pc = .closing c) (hk : s.conns c = some k) :
    History (obs ++ [.removed c (s.connectionMap.lookup k.fd)])
      { setPc s l (.erased c) with connectionMap := s.connectionMap.erase k.fd } := by
  have hpcs : History (obs ++ [.removed c (s.connectionMap.lookup k.fd)])
      (setPc s l (.erased c)) := by
    apply (h.append _).pc
    rintro d ⟨⟩
    exact List.mem_append_left _ (h.handled l c (by rw [hpc]; rfl))
  refine ⟨?_, hpcs.registered, hpcs.handled, hpcs.queued⟩
  intro d k' hk' hremoved
  have hlookup := hpcs.mapped d k' hk' hremoved
  have hfd : k'.fd ≠ k.fd := by
    intro heq
    -- an entry of another connection under this key would give two connections one descriptor
    obtain ⟨fd, hc⟩ := hi.held c (held_of_ref (l := l) (by rw [hpc]; rfl))
    obtain ⟨k'', hk'', halive, -⟩ := hc
    obtain rfl : k = k'' := Option.some.inj (hk.symm.trans hk'')
    have hd := hi.entry k'.fd d hlookup
    obtain rfl := hi.unique d c k.fd (heq ▸ hd) ⟨k, hk, halive, rfl⟩
    exact hremoved (s.connectionMap.lookup k.fd) (by simp)
  exact (AList.lookup_erase_ne hfd).trans hlookup

lemma History.move (h : History obs s) (hi : Inv s) (hm : Move s t o) :
    History (obs ++ o) t := by
  cases hm with
  | accept fd hpc hfd =>
    have hpcs : History (obs ++ []) (setPc s 0 (.accepted fd)) := by
      apply (h.append _).pc
      simp [Pc.handled]
    exact ⟨hpcs.mapped, hpcs.registered, hpcs.handled, hpcs.queued⟩
  | create c l fd hpc hc => exact h.newConnection hi hpc hc
  | establish l c k hpc hk =>
    refine (h.functor ?_).pc ?_
    · simp
    · simp [Pc.handled]
  | disconnect l c k hpc hk =>
    have hestablished : .established c ∈ obs := h.handled l c (by rw [hpc]; rfl)
    refine (h.functor ?_).pc ?_
    · rintro d ⟨⟩
      exact hestablished
    · rintro d ⟨⟩
      exact List.mem_append_left _ hestablished
  | returnNew l c hpc | leave l c hpc =>
    apply (h.append []).pc
    simp [Pc.handled]
  | callback l c k hpc hk hreg =>
    apply (h.append []).pc
    rintro d ⟨⟩
    exact List.mem_append_left _ (h.registered c k hk hreg)
  | close l c hpc _ | returnClose l c hpc =>
    apply (h.append []).pc
    rintro d ⟨⟩
    exact List.mem_append_left _ (h.handled l c (by rw [hpc]; rfl))
  | erase l c k hpc hk => exact h.removeConnection hi hpc hk
  | swap l hpc =>
    refine (h.append []).loop ?_ ?_
    · simp [Pc.handled]
    · intro c hc
      refine (h.append []).queued l c ?_
      simp only [Loop.tasks, List.nil_append, List.mem_append] at hc ⊢
      exact .inl (.inl hc)
  | run l task todo hpc htodo =>
    refine History.task (h.loop ?_ ?_) task
    · exact h.handled l
    · intro c hc
      refine h.queued l c ?_
      simpa [Loop.tasks, htodo] using hc
  | batchDone l hpc htodo =>
    refine (h.append []).loop ?_ ?_
    · simp [Pc.handled]
    · intro c hc
      refine (h.append []).queued l c ?_
      simp only [Loop.tasks, List.append_nil, List.mem_append] at hc ⊢
      tauto
  | keep c _ | drop c _ =>
    refine (h.append []).conn (fun _ => rfl) ?_
    intro k hreg
    exact .inl hreg
  | destroy c k hk _ _ =>
    have hconn : History (obs ++ [])
        (updateConn s c fun k => { k with alive := false }) := by
      refine (h.append []).conn (fun _ => rfl) ?_
      intro k hreg
      exact .inl hreg
    exact ⟨hconn.mapped, hconn.registered, hconn.handled, hconn.queued⟩

lemma history_of_run (h : (system n).Run obs s) : History obs s :=
  h.invariant history_init fun _ _ _ _ _ hr hh he =>
    hh.move (inv_of_reachable hr.reachable) (.of_step he)

/-! ### The observations of a step -/

lemma mem_runTask_of_mem {l' : Fin (n + 1)} {task : Task} {x : Obs}
    (h : x ∈ (runInLoop s l l' task).2) : x ∈ (runTask s task).2 := by
  rcases runInLoop_cases s l l' task with heq | heq <;> rw [heq] at h
  · exact h
  · cases h

lemma Move.removed {e : Option ConnId} (hm : Move s t o) (hmem : .removed c e ∈ o) :
    ∃ l k, (s.loops l).pc = .closing c ∧ s.conns c = some k ∧
      e = s.connectionMap.lookup k.fd := by
  cases hm with
  | erase l d k hpc hk =>
    obtain ⟨rfl, rfl⟩ : c = d ∧ e = s.connectionMap.lookup k.fd := by simpa using hmem
    exact ⟨l, k, hpc, hk, rfl⟩
  | establish | disconnect =>
    have htask := mem_runTask_of_mem hmem
    simp [runTask] at htask
  | run _ task => cases task <;> simp [runTask] at hmem
  | _ => simp at hmem

lemma Move.disconnected (hm : Move s t o) (hmem : .disconnected c ∈ o) :
    (∃ l, (s.loops l).pc.handled = some c) ∨ ∃ l, .connectDestroyed c ∈ (s.loops l).tasks := by
  cases hm with
  | disconnect l d k hpc hk =>
    have htask := mem_runTask_of_mem hmem
    obtain rfl : c = d := by simpa [runTask] using htask
    refine .inl ⟨l, ?_⟩
    rw [hpc]
    rfl
  | establish =>
    have htask := mem_runTask_of_mem hmem
    simp [runTask] at htask
  | run l task todo hpc htodo =>
    cases task with
    | connectEstablished d => simp [runTask] at hmem
    | connectDestroyed d =>
      obtain rfl : c = d := by simpa [runTask] using hmem
      refine .inr ⟨l, ?_⟩
      simp [Loop.tasks, htodo]
  | _ => simp at hmem

/-! ### Exactness -/

/-- What the map and the descriptors owe to each other, in the state a run has reached and in
what it has shown. -/
structure Exact (obs : List Obs) (s : State n) : Prop where
  /-- Every entry is a living connection under its own descriptor. -/
  entry : ∀ fd c, s.connectionMap.lookup fd = some c → Lives s c fd
  /-- No two living connections share a descriptor. -/
  unique : ∀ c d fd, Lives s c fd → Lives s d fd → c = d
  /-- `removeConnection` of `c` removes no entry but that of `c`. -/
  removed : ∀ c d, .removed c (some d) ∈ obs → d = c
  /-- A connection that is not yet removed is in the map. -/
  mapped : ∀ c k, s.conns c = some k → (∀ e, .removed c e ∉ obs) →
    s.connectionMap.lookup k.fd = some c
  /-- `connectDestroyed` runs behind `connectEstablished`. -/
  ordered : ∀ pre c post, obs = pre ++ .disconnected c :: post → .established c ∈ pre

/-- `ConnectionMap` is exact in every state of every run, with descriptors handed out again as
soon as they are closed. -/
theorem connectionMap_exact (h : (system n).Run obs s) : Exact obs s where
  entry := (inv_of_reachable h.reachable).entry
  unique := (inv_of_reachable h.reachable).unique
  mapped := (history_of_run h).mapped
  removed := by
    intro c d hmem
    obtain ⟨pre, post, rfl⟩ := List.append_of_mem hmem
    obtain ⟨pre', o₁, o₂, u, e, v, -, hu, he⟩ := h.split
    have hi := inv_of_reachable hu.reachable
    obtain ⟨l, k, hpc, hk, hlookup⟩ := (Move.of_step he).removed (c := c) (e := some d) (by simp)
    -- the thread in `removeConnection` holds `c`, which lives on the key of the entry
    obtain ⟨fd, hlives⟩ := hi.held c (held_of_ref (l := l) (by rw [hpc]; rfl))
    have hd := hi.entry k.fd d hlookup.symm
    have hfd : fd = k.fd := by
      obtain ⟨k', hk', -, rfl⟩ := hlives
      rw [Option.some.inj (hk'.symm.trans hk)]
    exact hi.unique d c k.fd hd (hfd ▸ hlives)
  ordered := by
    intro pre c post hobs
    subst hobs
    obtain ⟨pre', o₁, o₂, u, e, v, rfl, hu, he⟩ := h.split
    have hh := history_of_run hu
    apply List.mem_append_left
    rcases (Move.of_step he).disconnected (c := c) (by simp) with ⟨l, hpc⟩ | ⟨l, htask⟩
    · exact hh.handled l c hpc
    · exact hh.queued l c htask

/-- Two connections, one after the other, on descriptor 5. -/
theorem connectionMap_exact_reuse : ∃ (obs : List Obs) (s : State 1),
    (system 1).Run obs s ∧ .removed 0 (some 0) ∈ obs ∧
      s.connectionMap.lookup 5 = some 1 ∧ Exact obs s := by
  obtain ⟨s, obs, hexec, hmem, hlookup⟩ : ∃ s obs, (system 1).exec (init 1)
      [.accept 5, .create 0 1, .next 0, .next 0, .swap 1, .next 1, .next 1, .callback 1 0,
        .close 1, .next 1, .next 1, .next 1, .leave 1, .destroy 0, .accept 5, .create 1 1] =
          some (s, obs) ∧ .removed 0 (some 0) ∈ obs ∧ s.connectionMap.lookup 5 = some 1 :=
    ⟨_, _, rfl, by decide, rfl⟩
  have hrun : (system 1).Run obs s := .of_exec _ hexec
  exact ⟨obs, s, hrun, hmem, hlookup, connectionMap_exact hrun⟩

end ClwServer.TcpServer
