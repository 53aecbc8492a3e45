import ClwServer.Net.TcpServer.Basic

/-!
# Descriptors and references

The map, the references and the kernel's table are tied together by one fact: the descriptor of a
connection is open until its destructor has run, and the destructor runs only when nobody holds
the connection any more. A new descriptor therefore never belongs to an old connection.
-/

namespace ClwServer.TcpServer

variable {n : ℕ} {s t : State n} {l : Fin (n + 1)} {c d : ConnId} {fd : ℕ}

/-- The connection `c` on the descriptor `fd` is not destroyed. -/
def Lives (s : State n) (c : ConnId) (fd : ℕ) : Prop :=
  ∃ k, s.conns c = some k ∧ k.alive = true ∧ k.fd = fd

/-! ### What a step can do -/

/-- The steps, with what they show. -/
inductive Move (s : State n) : State n → List Obs → Prop
  | accept (fd : ℕ) (hpc : (s.loops 0).pc = .idle) (hfd : fd ∉ s.openFds) :
      Move s { setPc s 0 (.accepted fd) with openFds := insert fd s.openFds } []
  | create (c : ConnId) (l : Fin (n + 1)) (fd : ℕ) (hpc : (s.loops 0).pc = .accepted fd)
      (hc : s.conns c = none) :
      Move s { setPc s 0 (.inserted c) with
          conns := Function.update s.conns c
            (some { fd := fd, loop := l, registered := false, kept := 0, alive := true })
          connectionMap := s.connectionMap.insert fd c } [.created c]
  | establish (l : Fin (n + 1)) (c : ConnId) (k : Conn n) (hpc : (s.loops l).pc = .inserted c)
      (hk : s.conns c = some k) :
      Move s (setPc (runInLoop s l k.loop (.connectEstablished c)).1 l (.returning c))
        (runInLoop s l k.loop (.connectEstablished c)).2
  | returnNew (l : Fin (n + 1)) (c : ConnId) (hpc : (s.loops l).pc = .returning c) :
      Move s (setPc s l .idle) []
  | callback (l : Fin (n + 1)) (c : ConnId) (k : Conn n) (hpc : (s.loops l).pc = .idle)
      (hk : s.conns c = some k) (hreg : k.registered = true) :
      Move s (setPc s l (.callback c)) []
  | close (l : Fin (n + 1)) (c : ConnId) (hpc : (s.loops l).pc = .callback c) (hheld : Held s c) :
      Move s (setPc s l (.closing c)) []
  | erase (l : Fin (n + 1)) (c : ConnId) (k : Conn n) (hpc : (s.loops l).pc = .closing c)
      (hk : s.conns c = some k) :
      Move s { setPc s l (.erased c) with connectionMap := s.connectionMap.erase k.fd }
        [.removed c (s.connectionMap.lookup k.fd)]
  | disconnect (l : Fin (n + 1)) (c : ConnId) (k : Conn n) (hpc : (s.loops l).pc = .erased c)
      (hk : s.conns c = some k) :
      Move s (setPc (runInLoop s l k.loop (.connectDestroyed c)).1 l (.closed c))
        (runInLoop s l k.loop (.connectDestroyed c)).2
  | returnClose (l : Fin (n + 1)) (c : ConnId) (hpc : (s.loops l).pc = .closed c) :
      Move s (setPc s l (.callback c)) []
  | leave (l : Fin (n + 1)) (c : ConnId) (hpc : (s.loops l).pc = .callback c) :
      Move s (setPc s l .idle) []
  | swap (l : Fin (n + 1)) (hpc : (s.loops l).pc = .idle) :
      Move s (setLoop s l ⟨.functors, [], [], (s.loops l).pendingFunctors⟩) []
  | run (l : Fin (n + 1)) (task : Task) (todo : List Task) (hpc : (s.loops l).pc = .functors)
      (htodo : (s.loops l).todo = task :: todo) :
      Move s
        (runTask (setLoop s l { s.loops l with ran := (s.loops l).ran ++ [task], todo := todo })
          task).1
        (runTask (setLoop s l { s.loops l with ran := (s.loops l).ran ++ [task], todo := todo })
          task).2
  | batchDone (l : Fin (n + 1)) (hpc : (s.loops l).pc = .functors)
      (htodo : (s.loops l).todo = []) :
      Move s (setLoop s l { s.loops l with pc := .idle, ran := [] }) []
  | keep (c : ConnId) (hheld : Held s c) :
      Move s (updateConn s c fun k => { k with kept := k.kept + 1 }) []
  | drop (c : ConnId) (hkept : 0 < kept s c) :
      Move s (updateConn s c fun k => { k with kept := k.kept - 1 }) []
  | destroy (c : ConnId) (k : Conn n) (hk : s.conns c = some k) (halive : k.alive = true)
      (hheld : ¬Held s c) :
      Move s { updateConn s c (fun k => { k with alive := false }) with
          openFds := s.openFds.erase k.fd } []

lemma Move.of_next {o : List Obs} (h : next s l = some (t, o)) : Move s t o := by
  simp only [next] at h
  cases hpc : (s.loops l).pc with
  | inserted c =>
    simp only [hpc] at h
    obtain ⟨k, hk, heq⟩ := Option.map_eq_some_iff.mp h
    cases heq
    exact .establish l c k hpc hk
  | returning c =>
    simp only [hpc, Option.some.injEq, Prod.mk.injEq] at h
    obtain ⟨rfl, rfl⟩ := h
    exact .returnNew l c hpc
  | closing c =>
    simp only [hpc] at h
    obtain ⟨k, hk, heq⟩ := Option.map_eq_some_iff.mp h
    cases heq
    exact .erase l c k hpc hk
  | erased c =>
    simp only [hpc] at h
    obtain ⟨k, hk, heq⟩ := Option.map_eq_some_iff.mp h
    cases heq
    exact .disconnect l c k hpc hk
  | closed c =>
    simp only [hpc, Option.some.injEq, Prod.mk.injEq] at h
    obtain ⟨rfl, rfl⟩ := h
    exact .returnClose l c hpc
  | functors =>
    simp only [hpc] at h
    cases htodo : (s.loops l).todo with
    | nil =>
      simp only [htodo, Option.some.injEq, Prod.mk.injEq] at h
      obtain ⟨rfl, rfl⟩ := h
      simpa only [htodo] using Move.batchDone l hpc htodo
    | cons task todo =>
      simp only [htodo, Option.some.injEq] at h
      have hmove := Move.run l task todo hpc htodo
      simpa only [hpc, h] using hmove
  | idle | accepted | callback => simp only [hpc, reduceCtorEq] at h

lemma Move.of_step {e : Event n} {o : List Obs} (h : (system n).step s e = some (t, o)) :
    Move s t o := by
  change TcpServer.step s e = some (t, o) at h
  cases e with
  | accept fd =>
    simp only [TcpServer.step] at h
    split at h
    · rename_i hguard
      cases h
      exact .accept fd hguard.1 hguard.2
    · cases h
  | create c l =>
    simp only [TcpServer.step] at h
    split at h
    · rename_i fd hpc hc
      cases h
      exact .create c l fd hpc hc
    · cases h
  | callback l c =>
    simp only [TcpServer.step] at h
    split at h
    · rename_i k hk
      split at h
      · rename_i hguard
        cases h
        exact .callback l c k hguard.1 hk hguard.2.2
      · cases h
    · cases h
  | close l =>
    simp only [TcpServer.step] at h
    split at h
    · rename_i c hpc
      split at h <;> cases h
      exact .close l c hpc ‹_›
    · cases h
  | leave l =>
    simp only [TcpServer.step] at h
    split at h <;> cases h
    exact .leave l _ ‹_›
  | swap l =>
    simp only [TcpServer.step] at h
    split at h <;> cases h
    exact .swap l ‹_›
  | next l => exact .of_next h
  | keep c =>
    simp only [TcpServer.step] at h
    split at h <;> cases h
    exact .keep c ‹_›
  | drop c =>
    simp only [TcpServer.step] at h
    split at h <;> cases h
    exact .drop c ‹_›
  | destroy c =>
    simp only [TcpServer.step] at h
    split at h
    · rename_i k hk
      split at h
      · rename_i hguard
        cases h
        exact .destroy c k hk hguard.1 hguard.2
      · cases h
    · cases h

/-! ### References and lives -/

lemma held_of_lookup (h : s.connectionMap.lookup fd = some c) : Held s c :=
  .inl ⟨⟨fd, c⟩, AList.mem_lookup_iff.mp h, rfl⟩

lemma held_of_ref (h : (s.loops l).pc.ref = some c) : Held s c := by
  refine .inr (.inl ⟨l, ?_⟩)
  simp [Loop.refs, h]

lemma held_of_task {task : Task} (h : task ∈ (s.loops l).tasks) : Held s task.conn := by
  refine .inr (.inl ⟨l, ?_⟩)
  simp only [Loop.refs, List.mem_append, List.mem_map]
  exact .inr ⟨task, h, rfl⟩

/-- One loop changes: every reference is an old one, or one of this loop. -/
lemma held_setLoop {L : Loop} (h : Held (setLoop s l L) d) : Held s d ∨ d ∈ L.refs := by
  rcases h with hmap | ⟨l', hmem⟩ | hkept
  · exact .inl (.inl hmap)
  · by_cases hl : l' = l
    · subst hl
      right
      simpa [setLoop] using hmem
    · left
      refine .inr (.inl ⟨l', ?_⟩)
      simpa [setLoop, hl] using hmem
  · exact .inl (.inr (.inr hkept))

lemma held_setPc {pc : Pc} (h : Held (setPc s l pc) d) : Held s d ∨ pc.ref = some d := by
  rcases held_setLoop h with hold | hmem
  · exact .inl hold
  · simp only [Loop.refs, List.mem_append, Option.mem_toList] at hmem
    rcases hmem with hpc | htask
    · exact .inr hpc
    · left
      refine .inr (.inl ⟨l, ?_⟩)
      simp only [Loop.refs, List.mem_append]
      exact .inr htask

lemma held_updateConn {f : Conn n → Conn n} (h : Held (updateConn s c f) d) :
    Held s d ∨ d = c := by
  by_cases hdc : d = c
  · exact .inr hdc
  · left
    rcases h with hmap | href | hkept
    · exact .inl hmap
    · exact .inr (.inl href)
    · refine .inr (.inr ?_)
      simpa [kept, updateConn, hdc] using hkept

/-- A change of members that copies no pointer. -/
lemma held_updateConn_of_le {f : Conn n → Conn n} (hf : ∀ k, (f k).kept ≤ k.kept)
    (h : Held (updateConn s c f) d) : Held s d := by
  by_cases hdc : d = c
  · subst hdc
    rcases h with hmap | href | hkept
    · exact .inl hmap
    · exact .inr (.inl href)
    · refine .inr (.inr ?_)
      cases hconn : s.conns d with
      | none => simp [kept, updateConn, hconn] at hkept
      | some k =>
        have hle := hf k
        simp only [kept, updateConn, hconn, Function.update_self, Option.map_some,
          Option.getD_some] at hkept ⊢
        omega
  · exact (held_updateConn h).resolve_right hdc

/-- A new connection is not held by anybody. -/
lemma held_setConn {k : Conn n} (hk : k.kept = 0)
    (h : Held { s with conns := Function.update s.conns c (some k) } d) : Held s d := by
  rcases h with hmap | href | hkept
  · exact .inl hmap
  · exact .inr (.inl href)
  · refine .inr (.inr ?_)
    by_cases hdc : d = c
    · subst hdc
      simp [kept, hk] at hkept
    · simpa [kept, hdc] using hkept

lemma held_runTask {task : Task} (h : Held (runTask s task).1 d) : Held s d := by
  cases task <;> refine held_updateConn_of_le ?_ h <;> exact fun _ => Nat.le_refl _

lemma held_runInLoop {l' : Fin (n + 1)} {task : Task} (h : Held (runInLoop s l l' task).1 d) :
    Held s d ∨ d = task.conn := by
  rcases runInLoop_cases s l l' task with heq | heq <;> rw [heq] at h
  · exact .inl (held_runTask h)
  · rcases held_setLoop h with hold | hmem
    · exact .inl hold
    · simp only [Loop.refs, Loop.tasks, List.mem_append, List.map_append, List.map_cons,
        List.map_nil, List.mem_singleton] at hmem
      by_cases hd : d = task.conn
      · exact .inr hd
      · left
        refine .inr (.inl ⟨l', ?_⟩)
        simp only [Loop.refs, Loop.tasks, List.mem_append, List.map_append]
        simpa only [hd, or_false] using hmem

/-- The map changes: every reference is an old one, or an entry of the new map. -/
lemma held_setMap {m : AList fun _ : ℕ => ConnId} (h : Held { s with connectionMap := m } d) :
    Held s d ∨ ∃ fd, m.lookup fd = some d := by
  rcases h with ⟨⟨fd, c⟩, hmem, rfl⟩ | href | hkept
  · exact .inr ⟨fd, AList.mem_lookup_iff.mpr hmem⟩
  · exact .inl (.inr (.inl href))
  · exact .inl (.inr (.inr hkept))

lemma pc_setLoop_of_pc {L : Loop} (h : L.pc = (s.loops l).pc) (i : Fin (n + 1)) :
    ((setLoop s l L).loops i).pc = (s.loops i).pc := by
  by_cases hi : i = l
  · subst hi
    simpa [setLoop] using h
  · simp [setLoop, hi]

lemma pc_runTask (task : Task) (i : Fin (n + 1)) :
    ((runTask s task).1.loops i).pc = (s.loops i).pc := by
  cases task <;> rfl

lemma pc_runInLoop (l' : Fin (n + 1)) (task : Task) (i : Fin (n + 1)) :
    ((runInLoop s l l' task).1.loops i).pc = (s.loops i).pc := by
  rcases runInLoop_cases s l l' task with heq | heq <;> rw [heq]
  · exact pc_runTask task i
  · apply pc_setLoop_of_pc
    rfl

/-- A change of members that keeps the descriptor and the life of the connection. -/
lemma lives_updateConn {f : Conn n → Conn n} (hfd : ∀ k, (f k).fd = k.fd)
    (halive : ∀ k, (f k).alive = k.alive) :
    Lives (updateConn s c f) d fd ↔ Lives s d fd := by
  by_cases hdc : d = c
  · subst hdc
    simp [Lives, updateConn, hfd, halive]
  · simp [Lives, updateConn, hdc]

lemma lives_runTask {task : Task} : Lives (runTask s task).1 d fd ↔ Lives s d fd := by
  cases task <;> exact lives_updateConn (fun _ => rfl) fun _ => rfl

lemma lives_runInLoop {l' : Fin (n + 1)} {task : Task} :
    Lives (runInLoop s l l' task).1 d fd ↔ Lives s d fd := by
  rcases runInLoop_cases s l l' task with heq | heq <;> rw [heq]
  · exact lives_runTask
  · exact Iff.rfl

/-! ### The invariant -/

structure Inv (s : State n) : Prop where
  entry : ∀ fd c, s.connectionMap.lookup fd = some c → Lives s c fd
  held : ∀ c, Held s c → ∃ fd, Lives s c fd
  opened : ∀ c fd, Lives s c fd → fd ∈ s.openFds
  unique : ∀ c d fd, Lives s c fd → Lives s d fd → c = d
  /-- A descriptor just accepted belongs to no connection. -/
  accepted : ∀ fd, (s.loops 0).pc = .accepted fd → fd ∈ s.openFds ∧ ∀ c, ¬Lives s c fd

lemma inv_init : Inv (init n) where
  entry := by simp [init]
  held := by simp [Held, kept, init, Loop.refs, Loop.tasks, Pc.ref]
  opened := by simp [Lives, init]
  unique := by simp [Lives, init]
  accepted := by simp [init]

/-- The steps that neither open nor close a descriptor. -/
structure Quiet (s t : State n) : Prop where
  lives : ∀ c fd, Lives t c fd ↔ Lives s c fd
  openFds : t.openFds = s.openFds
  entry : ∀ fd c, t.connectionMap.lookup fd = some c → s.connectionMap.lookup fd = some c
  held : ∀ c, Held t c → Held s c
  accepted : ∀ fd, (t.loops 0).pc = .accepted fd → (s.loops 0).pc = .accepted fd

lemma Inv.quiet (hi : Inv s) (h : Quiet s t) : Inv t where
  entry := by
    intro fd c hlookup
    rw [h.lives]
    exact hi.entry fd c (h.entry fd c hlookup)
  held := by
    intro c hheld
    simp only [h.lives]
    exact hi.held c (h.held c hheld)
  opened := by
    intro c fd
    rw [h.lives, h.openFds]
    exact hi.opened c fd
  unique := by
    intro c d fd
    rw [h.lives, h.lives]
    exact hi.unique c d fd
  accepted := by
    intro fd hpc
    simp only [h.lives, h.openFds]
    exact hi.accepted fd (h.accepted fd hpc)

/-! ### Quiet steps -/

lemma Quiet.trans {u : State n} (h : Quiet s t) (h' : Quiet t u) : Quiet s u where
  lives := fun c fd => (h'.lives c fd).trans (h.lives c fd)
  openFds := h'.openFds.trans h.openFds
  entry := fun fd c hlookup => h.entry fd c (h'.entry fd c hlookup)
  held := fun c hheld => h.held c (h'.held c hheld)
  accepted := fun fd hpc => h.accepted fd (h'.accepted fd hpc)

lemma quiet_setLoop {L : Loop} (hpc : ∀ fd, L.pc = .accepted fd → (s.loops l).pc = .accepted fd)
    (hrefs : ∀ d ∈ L.refs, Held s d) : Quiet s (setLoop s l L) where
  lives := fun _ _ => Iff.rfl
  openFds := rfl
  entry := fun _ _ hlookup => hlookup
  held := by
    intro d h
    rcases held_setLoop h with hold | hmem
    · exact hold
    · exact hrefs d hmem
  accepted := by
    intro fd hacc
    by_cases hl : 0 = l
    · subst hl
      exact hpc fd (by simpa [setLoop] using hacc)
    · simpa [setLoop, hl] using hacc

lemma quiet_setPc {pc : Pc} (hpc : ∀ fd, pc ≠ .accepted fd)
    (href : ∀ d, pc.ref = some d → Held s d) : Quiet s (setPc s l pc) := by
  apply quiet_setLoop
  · intro fd hacc
    exact absurd hacc (hpc fd)
  · intro d hmem
    simp only [Loop.refs, List.mem_append, Option.mem_toList] at hmem
    rcases hmem with hpc | htask
    · exact href d hpc
    · refine .inr (.inl ⟨l, ?_⟩)
      simp only [Loop.refs, List.mem_append]
      exact .inr htask

lemma quiet_runTask {task : Task} : Quiet s (runTask s task).1 where
  lives := fun _ _ => lives_runTask
  openFds := by cases task <;> rfl
  entry := by
    intro fd c hlookup
    cases task <;> exact hlookup
  held := fun _ => held_runTask
  accepted := by
    intro fd hpc
    rwa [pc_runTask] at hpc

lemma quiet_runInLoop {l' : Fin (n + 1)} {task : Task} (h : Held s task.conn) :
    Quiet s (runInLoop s l l' task).1 where
  lives := fun _ _ => lives_runInLoop
  openFds := by
    rcases runInLoop_cases s l l' task with heq | heq <;> rw [heq]
    · exact quiet_runTask.openFds
    · rfl
  entry := by
    rcases runInLoop_cases s l l' task with heq | heq <;> rw [heq]
    · exact quiet_runTask.entry
    · intro fd c hlookup
      exact hlookup
  held := by
    intro d hheld
    rcases held_runInLoop hheld with hold | rfl
    · exact hold
    · exact h
  accepted := by
    intro fd hpc
    rwa [pc_runInLoop] at hpc

/-- A thread that points to `c` hands a functor of `c` to a loop, and goes on. -/
lemma quiet_runInLoop_setPc {l' : Fin (n + 1)} {task : Task} {pc : Pc}
    (href : (s.loops l).pc.ref = some task.conn) (hpc : ∀ fd, pc ≠ .accepted fd)
    (href' : pc.ref = some task.conn) :
    Quiet s (setPc (runInLoop s l l' task).1 l pc) := by
  apply (quiet_runInLoop (held_of_ref href)).trans
  apply quiet_setPc hpc
  intro d hd
  obtain rfl : task.conn = d := Option.some.inj (href'.symm.trans hd)
  apply held_of_ref (l := l)
  rw [pc_runInLoop, href]

lemma quiet_erase (fd : ℕ) :
    Quiet s { s with connectionMap := s.connectionMap.erase fd } where
  lives := fun _ _ => Iff.rfl
  openFds := rfl
  entry := by
    intro fd' d hlookup
    by_cases hfd : fd' = fd
    · subst hfd
      rw [AList.lookup_erase] at hlookup
      cases hlookup
    · rwa [AList.lookup_erase_ne hfd] at hlookup
  held := by
    intro d h
    rcases held_setMap h with hold | ⟨fd', hlookup⟩
    · exact hold
    · by_cases hfd : fd' = fd
      · subst hfd
        rw [AList.lookup_erase] at hlookup
        cases hlookup
      · rw [AList.lookup_erase_ne hfd] at hlookup
        exact held_of_lookup hlookup
  accepted := fun _ hpc => hpc

lemma quiet_keep (h : Held s c) :
    Quiet s (updateConn s c fun k => { k with kept := k.kept + 1 }) where
  lives := fun _ _ => lives_updateConn (fun _ => rfl) fun _ => rfl
  openFds := rfl
  entry := fun _ _ hlookup => hlookup
  held := by
    intro d hheld
    rcases held_updateConn hheld with hold | rfl
    · exact hold
    · exact h
  accepted := fun _ hpc => hpc

lemma quiet_drop : Quiet s (updateConn s c fun k => { k with kept := k.kept - 1 }) where
  lives := fun _ _ => lives_updateConn (fun _ => rfl) fun _ => rfl
  openFds := rfl
  entry := fun _ _ hlookup => hlookup
  held := fun _ => held_updateConn_of_le fun _ => Nat.sub_le _ _
  accepted := fun _ hpc => hpc

/-! ### The invariant is kept -/

lemma Inv.accept (hi : Inv s) (hfd : fd ∉ s.openFds) :
    Inv { setPc s 0 (.accepted fd) with openFds := insert fd s.openFds } where
  entry := hi.entry
  held := by
    intro c hheld
    have hcases : Held s c ∨ (Pc.accepted fd).ref = some c := held_setPc (l := 0) hheld
    rcases hcases with hold | href
    · exact hi.held c hold
    · cases href
  opened := fun c fd' hlives => Finset.mem_insert_of_mem (hi.opened c fd' hlives)
  unique := hi.unique
  accepted := by
    intro fd' hpc
    obtain rfl : fd = fd' := by simpa [setPc, setLoop] using hpc
    refine ⟨Finset.mem_insert_self _ _, ?_⟩
    intro c hlives
    exact hfd (hi.opened c fd hlives)

lemma lives_create {k : Conn n} (hc : s.conns c = none) (halive : k.alive = true) {d : ConnId} :
    Lives { s with conns := Function.update s.conns c (some k) } d fd ↔
      d = c ∧ fd = k.fd ∨ Lives s d fd := by
  by_cases hdc : d = c
  · subst hdc
    simp only [Lives, Function.update_self, Option.some.injEq, exists_eq_left', halive, true_and,
      hc, reduceCtorEq, false_and, exists_false, or_false, eq_comm]
  · simp [Lives, hdc]

lemma Inv.create (hi : Inv s) {l : Fin (n + 1)} (hpc : (s.loops 0).pc = .accepted fd)
    (hc : s.conns c = none) :
    Inv { setPc s 0 (.inserted c) with
          conns := Function.update s.conns c
            (some { fd := fd, loop := l, registered := false, kept := 0, alive := true })
          connectionMap := s.connectionMap.insert fd c } := by
  obtain ⟨hopen, hfree⟩ := hi.accepted fd hpc
  have hlives : ∀ d fd', Lives { setPc s 0 (.inserted c) with
      conns := Function.update s.conns c
        (some { fd := fd, loop := l, registered := false, kept := 0, alive := true })
      connectionMap := s.connectionMap.insert fd c } d fd' ↔
        d = c ∧ fd' = fd ∨ Lives s d fd' := fun d fd' => lives_create hc rfl
  refine ⟨?_, ?_, ?_, ?_, ?_⟩
  · intro fd' d hlookup
    rw [hlives]
    by_cases hfd : fd' = fd
    · subst hfd
      rw [AList.lookup_insert] at hlookup
      exact .inl ⟨(Option.some.inj hlookup).symm, rfl⟩
    · rw [AList.lookup_insert_ne hfd] at hlookup
      exact .inr (hi.entry fd' d hlookup)
  · intro d hheld
    simp only [hlives]
    have hcases : d = c ∨ Held s d := by
      rcases held_setMap (s := { setPc s 0 (.inserted c) with conns := _ }) hheld
        with hconn | ⟨fd', hlookup⟩
      · rcases held_setPc (held_setConn rfl hconn) with hold | href
        · exact .inr hold
        · exact .inl (Option.some.inj href).symm
      · by_cases hfd : fd' = fd
        · subst hfd
          rw [AList.lookup_insert] at hlookup
          exact .inl (Option.some.inj hlookup).symm
        · rw [AList.lookup_insert_ne hfd] at hlookup
          exact .inr (held_of_lookup hlookup)
    rcases hcases with rfl | hold
    · exact ⟨fd, .inl ⟨rfl, rfl⟩⟩
    · obtain ⟨fd', hd⟩ := hi.held d hold
      exact ⟨fd', .inr hd⟩
  · intro d fd' h
    rcases (hlives d fd').mp h with ⟨rfl, rfl⟩ | hold
    · exact hopen
    · exact hi.opened d fd' hold
  · intro d e fd' hd he
    rcases (hlives d fd').mp hd with ⟨rfl, rfl⟩ | hold
    · rcases (hlives e fd').mp he with ⟨rfl, -⟩ | hold'
      · rfl
      · exact absurd hold' (hfree e)
    · rcases (hlives e fd').mp he with ⟨rfl, rfl⟩ | hold'
      · exact absurd hold (hfree d)
      · exact hi.unique d e fd' hold hold'
  · intro fd' hacc
    simp [setPc, setLoop] at hacc

lemma Inv.destroy (hi : Inv s) {k : Conn n} (hk : s.conns c = some k) (halive : k.alive = true)
    (hheld : ¬Held s c) :
    Inv { updateConn s c (fun k => { k with alive := false }) with
          openFds := s.openFds.erase k.fd } := by
  have hc : Lives s c k.fd := ⟨k, hk, halive, rfl⟩
  have hlives : ∀ d fd, Lives { updateConn s c (fun k => { k with alive := false }) with
      openFds := s.openFds.erase k.fd } d fd ↔ d ≠ c ∧ Lives s d fd := by
    intro d fd
    by_cases hdc : d = c
    · subst hdc
      simp [Lives, updateConn, hk]
    · simp [Lives, updateConn, hdc]
  refine ⟨?_, ?_, ?_, ?_, ?_⟩
  · intro fd d hlookup
    rw [hlives]
    refine ⟨?_, hi.entry fd d hlookup⟩
    rintro rfl
    exact hheld (held_of_lookup hlookup)
  · intro d hd
    have hold : Held s d := by
      refine held_updateConn_of_le (s := s) (c := c) ?_ hd
      exact fun _ => Nat.le_refl _
    obtain ⟨fd, hlive⟩ := hi.held d hold
    refine ⟨fd, (hlives d fd).mpr ⟨?_, hlive⟩⟩
    rintro rfl
    exact hheld hold
  · intro d fd h
    obtain ⟨hne, hd⟩ := (hlives d fd).mp h
    refine Finset.mem_erase_of_ne_of_mem ?_ (hi.opened d fd hd)
    rintro rfl
    exact hne (hi.unique d c _ hd hc)
  · intro d e fd hd he
    exact hi.unique d e fd ((hlives d fd).mp hd).2 ((hlives e fd).mp he).2
  · intro fd hacc
    obtain ⟨hopen, hfree⟩ := hi.accepted fd hacc
    refine ⟨Finset.mem_erase_of_ne_of_mem ?_ hopen, ?_⟩
    · rintro rfl
      exact hfree c hc
    · intro d hd
      exact hfree d ((hlives d fd).mp hd).2

lemma Inv.move {o : List Obs} (hi : Inv s) (h : Move s t o) : Inv t := by
  cases h with
  | accept fd hpc hfd => exact hi.accept hfd
  | create c l fd hpc hc => exact hi.create hpc hc
  | destroy c k hk halive hheld => exact hi.destroy hk halive hheld
  | establish l c k hpc hk | disconnect l c k hpc hk =>
    apply hi.quiet
    apply quiet_runInLoop_setPc
    · rw [hpc]
      rfl
    · simp
    · rfl
  | returnNew l c hpc | callback l c _ hpc | returnClose l c hpc | leave l c hpc =>
    apply hi.quiet
    apply quiet_setPc
    · simp
    · simp [Pc.ref]
  | close l c hpc hheld =>
    apply hi.quiet
    apply quiet_setPc
    · simp
    · rintro d ⟨⟩
      exact hheld
  | erase l c k hpc hk =>
    apply hi.quiet
    have href : (s.loops l).pc.ref = some c := by
      rw [hpc]
      rfl
    have hpcs : Quiet s (setPc s l (.erased c)) := by
      apply quiet_setPc
      · simp
      · rintro d ⟨⟩
        exact held_of_ref href
    exact hpcs.trans (quiet_erase k.fd)
  | swap l hpc =>
    apply hi.quiet
    apply quiet_setLoop
    · simp
    · intro d hd
      obtain ⟨task, hmem, rfl⟩ : ∃ task ∈ (s.loops l).pendingFunctors, task.conn = d := by
        simpa [Loop.refs, Loop.tasks, Pc.ref] using hd
      apply held_of_task (l := l)
      simp [Loop.tasks, hmem]
  | run l task todo hpc htodo =>
    apply hi.quiet
    refine Quiet.trans ?_ quiet_runTask
    apply quiet_setLoop
    · simp
    · intro d hd
      refine .inr (.inl ⟨l, ?_⟩)
      simpa [Loop.refs, Loop.tasks, htodo] using hd
  | batchDone l hpc htodo =>
    apply hi.quiet
    apply quiet_setLoop
    · simp
    · intro d hd
      obtain ⟨task, hmem, rfl⟩ : ∃ task ∈ (s.loops l).pendingFunctors, task.conn = d := by
        simpa [Loop.refs, Loop.tasks, Pc.ref, htodo] using hd
      apply held_of_task (l := l)
      simp [Loop.tasks, hmem]
  | keep c hheld => exact hi.quiet (quiet_keep hheld)
  | drop c _ => exact hi.quiet quiet_drop

lemma inv_of_reachable (h : (system n).Reachable s) : Inv s :=
  h.invariant inv_init fun _ _ _ _ _ hi he => hi.move (.of_step he)

end ClwServer.TcpServer
