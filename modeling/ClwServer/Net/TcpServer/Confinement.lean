import ClwServer.Net.TcpServer.ConnectionMap
import ClwServer.Net.TcpServer.NewConnection

/-!
# Each connection stays on its loop

The members of `Epoll` are not locked: a loop is to call them on its own thread only. The loops
of a server keep to it: the callbacks of a connection, `connectEstablished` and
`connectDestroyed` run on the thread of the connection's loop. As a connection is only removed by
its own callbacks, `connectDestroyed` never has to be queued.
-/

namespace ClwServer.TcpServer

variable {n : ℕ} {s t : State n} {l i : Fin (n + 1)} {c d : ConnId} {o : List Obs}

/-! ### The threads and the queues after a step -/

lemma pc_setLoop {L : Loop} (l i : Fin (n + 1)) :
    ((setLoop s l L).loops i).pc = if i = l then L.pc else (s.loops i).pc := by
  by_cases hi : i = l
  · subst hi
    simp [setLoop]
  · simp [setLoop, hi]

lemma pc_setPc {pc : Pc} (l i : Fin (n + 1)) :
    ((setPc s l pc).loops i).pc = if i = l then pc else (s.loops i).pc := pc_setLoop l i

/-- A thread that goes to `pc` handles what it has handled before, or what it handles there. -/
lemma handled_setPc {pc : Pc} (h : ((setPc s l pc).loops i).pc.handled = some c) :
    (s.loops i).pc.handled = some c ∨ i = l ∧ pc.handled = some c := by
  rw [pc_setPc] at h
  split at h
  · exact .inr ⟨‹_›, h⟩
  · exact .inl h

lemma handled_next (hstep : next s l = some (t, o)) (h : (t.loops i).pc.handled = some c) :
    (s.loops i).pc.handled = some c := by
  have hold {u : State n} {pc : Pc} (hu : ∀ i, (u.loops i).pc = (s.loops i).pc)
      (hpc : pc.handled = (s.loops l).pc.handled)
      (h : ((setPc u l pc).loops i).pc.handled = some c) : (s.loops i).pc.handled = some c := by
    rcases handled_setPc h with hi | ⟨rfl, hi⟩
    · rwa [← hu]
    · rwa [← hpc]
  simp only [next] at hstep
  cases hpc : (s.loops l).pc with
  | inserted d | erased d =>
    simp only [hpc] at hstep
    obtain ⟨k, -, heq⟩ := Option.map_eq_some_iff.mp hstep
    cases heq
    exact hold (fun _ => pc_runInLoop _ _ _) (by rw [hpc]; rfl) h
  | closing d =>
    simp only [hpc] at hstep
    obtain ⟨k, -, heq⟩ := Option.map_eq_some_iff.mp hstep
    cases heq
    exact hold (fun _ => rfl) (by rw [hpc]; rfl) h
  | returning d | closed d =>
    simp only [hpc, Option.some.injEq, Prod.mk.injEq] at hstep
    obtain ⟨rfl, -⟩ := hstep
    exact hold (fun _ => rfl) (by rw [hpc]; rfl) h
  | functors =>
    simp only [hpc] at hstep
    cases htodo : (s.loops l).todo with
    | nil =>
      simp only [htodo, Option.some.injEq, Prod.mk.injEq] at hstep
      obtain ⟨rfl, -⟩ := hstep
      rw [pc_setLoop] at h
      split at h
      · cases h
      · exact h
    | cons task todo =>
      simp only [htodo, Option.some.injEq] at hstep
      obtain rfl : _ = t := congrArg Prod.fst hstep
      rwa [pc_runTask, pc_setLoop_of_pc hpc.symm] at h
  | idle | accepted | callback => simp only [hpc, reduceCtorEq] at hstep

/-- A thread begins to handle a connection in a callback, on the loop of the connection. -/
lemma handled_step {e : Event n} (hstep : step s e = some (t, o))
    (h : (t.loops i).pc.handled = some c) :
    (s.loops i).pc.handled = some c ∨
      ∃ k, s.conns c = some k ∧ k.loop = i ∧ k.registered = true := by
  cases e with
  | next l => exact .inl (handled_next hstep h)
  | callback l d =>
    simp only [step] at hstep
    split at hstep
    · rename_i k hk
      split at hstep <;> cases hstep
      rename_i hguard
      rcases handled_setPc h with hold | ⟨rfl, hd⟩
      · exact .inl hold
      · cases hd
        exact .inr ⟨k, hk, hguard.2.1, hguard.2.2⟩
    · cases hstep
  | accept fd =>
    simp only [step] at hstep
    split at hstep <;> cases hstep
    rcases handled_setPc (s := s) (l := 0) h with hold | ⟨-, hd⟩
    · exact .inl hold
    · cases hd
  | create d l =>
    simp only [step] at hstep
    split at hstep <;> cases hstep
    rcases handled_setPc (s := s) (l := 0) h with hold | ⟨-, hd⟩
    · exact .inl hold
    · cases hd
  | close l =>
    simp only [step] at hstep
    split at hstep
    · rename_i d hpc
      split at hstep <;> cases hstep
      rcases handled_setPc h with hold | ⟨rfl, hd⟩
      · exact .inl hold
      · left
        rw [hpc]
        exact hd
    · cases hstep
  | leave l =>
    simp only [step] at hstep
    split at hstep <;> cases hstep
    rcases handled_setPc h with hold | ⟨-, hd⟩
    · exact .inl hold
    · cases hd
  | swap l =>
    simp only [step] at hstep
    split at hstep <;> cases hstep
    rw [pc_setLoop] at h
    split at h
    · cases h
    · exact .inl h
  | keep d =>
    simp only [step] at hstep
    split at hstep <;> cases hstep
    exact .inl h
  | drop d =>
    simp only [step] at hstep
    split at hstep <;> cases hstep
    exact .inl h
  | destroy d =>
    simp only [step] at hstep
    split at hstep
    · split at hstep <;> cases hstep
      exact .inl h
    · cases hstep

lemma tasks_setLoop {L : Loop} (l i : Fin (n + 1)) :
    ((setLoop s l L).loops i).tasks = if i = l then L.tasks else (s.loops i).tasks := by
  by_cases hi : i = l
  · subst hi
    simp [setLoop]
  · simp [setLoop, hi]

lemma tasks_setPc {pc : Pc} (l i : Fin (n + 1)) :
    ((setPc s l pc).loops i).tasks = (s.loops i).tasks := by
  rw [setPc, tasks_setLoop]
  split
  · subst i
    rfl
  · rfl

lemma tasks_runTask (task : Task) (i : Fin (n + 1)) :
    ((runTask s task).1.loops i).tasks = (s.loops i).tasks := by
  cases task <;> rfl

/-- A functor is queued by another thread only. -/
lemma tasks_runInLoop {l' : Fin (n + 1)} {task task' : Task}
    (h : task' ∈ ((runInLoop s l l' task).1.loops i).tasks) :
    task' ∈ (s.loops i).tasks ∨ task' = task ∧ i = l' ∧ l' ≠ l := by
  by_cases hl : l' = l
  · rw [runInLoop, if_pos hl, tasks_runTask] at h
    exact .inl h
  · rw [runInLoop, if_neg hl, queueInLoop, tasks_setLoop] at h
    split at h
    · rename_i hi
      subst hi
      simp only [Loop.tasks, List.mem_append, List.mem_singleton] at h ⊢
      tauto
    · exact .inl h

/-- A functor comes into a queue in `newConnection`, or in `removeConnection`, each time from the
thread of another loop. -/
lemma Move.tasks {task : Task} (hm : Move s t o) (h : task ∈ (t.loops i).tasks) :
    task ∈ (s.loops i).tasks ∨ ∃ l c k, s.conns c = some k ∧ k.loop = i ∧ i ≠ l ∧
      ((s.loops l).pc = .inserted c ∧ task = .connectEstablished c ∨
        (s.loops l).pc = .erased c ∧ task = .connectDestroyed c) := by
  cases hm with
  | establish l c k hpc hk =>
    rw [tasks_setPc] at h
    rcases tasks_runInLoop h with hold | ⟨rfl, rfl, hne⟩
    · exact .inl hold
    · exact .inr ⟨l, c, k, hk, rfl, hne, .inl ⟨hpc, rfl⟩⟩
  | disconnect l c k hpc hk =>
    rw [tasks_setPc] at h
    rcases tasks_runInLoop h with hold | ⟨rfl, rfl, hne⟩
    · exact .inl hold
    · exact .inr ⟨l, c, k, hk, rfl, hne, .inr ⟨hpc, rfl⟩⟩
  | accept | create | erase =>
    have hmem : task ∈ ((setPc s _ _).loops i).tasks := h
    rw [tasks_setPc] at hmem
    exact .inl hmem
  | returnNew | callback | close | returnClose | leave =>
    rw [tasks_setPc] at h
    exact .inl h
  | swap l hpc =>
    rw [tasks_setLoop] at h
    split at h
    · rename_i hi
      subst hi
      left
      simp only [Loop.tasks, List.nil_append, List.mem_append] at h ⊢
      exact .inl (.inl h)
    · exact .inl h
  | run l task' todo hpc htodo =>
    rw [tasks_runTask, tasks_setLoop] at h
    split at h
    · rename_i hi
      subst hi
      left
      simpa [Loop.tasks, htodo] using h
    · exact .inl h
  | batchDone l hpc htodo =>
    rw [tasks_setLoop] at h
    split at h
    · rename_i hi
      subst hi
      left
      simp only [Loop.tasks, List.append_nil, List.mem_append] at h ⊢
      tauto
    · exact .inl h
  | keep | drop | destroy => exact .inl h

/-- Outside of `doPendingFunctors` there is no batch. -/
def Loop.Whole (L : Loop) : Prop := L.pc ≠ .functors → L.ran = [] ∧ L.todo = []

lemma whole_setLoop {L : Loop} (h : ∀ i, (s.loops i).Whole) (hL : L.Whole) (i : Fin (n + 1)) :
    ((setLoop s l L).loops i).Whole := by
  by_cases hi : i = l
  · subst hi
    simpa [setLoop] using hL
  · simpa [setLoop, hi] using h i

lemma whole_setPc {pc : Pc} (h : ∀ i, (s.loops i).Whole) (hpc : (s.loops l).pc ≠ .functors)
    (i : Fin (n + 1)) : ((setPc s l pc).loops i).Whole := by
  refine whole_setLoop h ?_ i
  intro _
  exact h l hpc

lemma whole_runTask (task : Task) (h : ∀ i, (s.loops i).Whole) (i : Fin (n + 1)) :
    ((runTask s task).1.loops i).Whole := by
  cases task <;> exact h i

lemma whole_runInLoop {l' : Fin (n + 1)} {task : Task} (h : ∀ i, (s.loops i).Whole)
    (i : Fin (n + 1)) : ((runInLoop s l l' task).1.loops i).Whole := by
  rcases runInLoop_cases s l l' task with heq | heq <;> rw [heq]
  · exact whole_runTask task h i
  · refine whole_setLoop h ?_ i
    exact h l'

lemma Move.whole (hm : Move s t o) (h : ∀ i, (s.loops i).Whole) (i : Fin (n + 1)) :
    (t.loops i).Whole := by
  cases hm with
  | establish l c k hpc hk | disconnect l c k hpc hk =>
    refine whole_setPc (whole_runInLoop h) ?_ i
    rw [pc_runInLoop, hpc]
    simp
  | accept fd hpc hfd | create c l fd hpc hc | erase l c k hpc hk =>
    exact whole_setPc h (by rw [hpc]; simp) i
  | returnNew l c hpc | callback l c k hpc _ _ | close l c hpc _ | returnClose l c hpc
  | leave l c hpc => exact whole_setPc h (by rw [hpc]; simp) i
  | swap l hpc =>
    refine whole_setLoop h ?_ i
    intro hne
    exact absurd rfl hne
  | run l task todo hpc htodo =>
    refine whole_runTask task (whole_setLoop h ?_) i
    intro hne
    exact absurd hpc hne
  | batchDone l hpc htodo =>
    refine whole_setLoop h ?_ i
    intro _
    exact ⟨rfl, htodo⟩
  | keep | drop | destroy => exact h i

/-! ### Confinement -/

lemma loopOf_eq {k : Conn n} (hk : s.conns c = some k) : loopOf s c = some k.loop.val := by
  simp [loopOf, hk]

/-- A connection keeps its loop. -/
lemma loopOf_of_step {e : Event n} {loop : EventLoopThreadPool.LoopId}
    (hstep : step s e = some (t, o)) (h : loopOf s c = some loop) : loopOf t c = some loop := by
  by_cases he : ∃ d l, e = .create d l
  · obtain ⟨d, l, rfl⟩ := he
    obtain ⟨hnone, heq⟩ := loopOf_create hstep
    have hne : c ≠ d := by
      rintro rfl
      rw [hnone] at h
      cases h
    rw [heq, Function.update_of_ne hne]
    exact h
  · rw [loopOf_step (fun d l heq => he ⟨d, l, heq⟩) hstep]
    exact h

structure Confined (s : State n) : Prop where
  /-- The callbacks of a connection run on the thread of its loop. -/
  handled : ∀ l c, (s.loops l).pc.handled = some c → loopOf s c = some l.val
  /-- So does `connectEstablished`, and `connectDestroyed` is never queued. -/
  tasks : ∀ l, ∀ task ∈ (s.loops l).tasks,
    ∃ c, task = .connectEstablished c ∧ loopOf s c = some l.val
  whole : ∀ l, (s.loops l).Whole

lemma confined_init : Confined (init n) where
  handled := by simp [init, Pc.handled]
  tasks := by simp [init, Loop.tasks]
  whole := fun _ _ => ⟨rfl, rfl⟩

lemma Confined.step {e : Event n} (h : Confined s) (hstep : step s e = some (t, o)) :
    Confined t where
  handled := by
    intro l c hpc
    apply loopOf_of_step hstep
    rcases handled_step hstep hpc with hold | ⟨k, hk, rfl, -⟩
    · exact h.handled l c hold
    · exact loopOf_eq hk
  tasks := by
    intro l task hmem
    rcases (Move.of_step hstep).tasks hmem with hold | ⟨l', c, k, hk, rfl, hne, hnew⟩
    · obtain ⟨c, rfl, hc⟩ := h.tasks l task hold
      exact ⟨c, rfl, loopOf_of_step hstep hc⟩
    · rcases hnew with ⟨hpc, rfl⟩ | ⟨hpc, rfl⟩
      · exact ⟨c, rfl, loopOf_of_step hstep (loopOf_eq hk)⟩
      · -- the thread in `removeConnection` is the one of the connection's loop
        have hloop := h.handled l' c (by rw [hpc]; rfl)
        rw [loopOf_eq hk] at hloop
        exact absurd (Fin.ext (Option.some.inj hloop)) hne
  whole := (Move.of_step hstep).whole h.whole

lemma confined_of_reachable (h : (system n).Reachable s) : Confined s :=
  h.invariant confined_init fun _ _ _ _ _ hc he => hc.step he

/-- What is shown of a connection is done by the thread of its loop, except that `newConnection`
makes it on the main loop. -/
def OnThread (s : State n) (e : Event n) : Obs → Prop
  | .created _ => ∃ c l, e = .create c l
  | .removed c _ | .established c | .disconnected c => ∃ l, e = .next l ∧ loopOf s c = some l.val

lemma Confined.next (h : Confined s) (hstep : next s l = some (t, o)) {x : Obs} (hx : x ∈ o) :
    OnThread s (.next l) x := by
  -- the thread handles `c`, or it runs a functor of `c`
  have hmine {c : ConnId} (hc : loopOf s c = some l.val) : ∃ l', Event.next l = .next l' ∧
      loopOf s c = some l'.val := ⟨l, rfl, hc⟩
  simp only [TcpServer.next] at hstep
  cases hpc : (s.loops l).pc with
  | inserted c =>
    simp only [hpc] at hstep
    obtain ⟨k, hk, heq⟩ := Option.map_eq_some_iff.mp hstep
    cases heq
    rw [runInLoop] at hx
    split at hx
    · rename_i hl
      obtain rfl : x = .established c := by simpa [runTask] using hx
      exact hmine (hl ▸ loopOf_eq hk)
    · cases hx
  | erased c =>
    simp only [hpc] at hstep
    obtain ⟨k, hk, heq⟩ := Option.map_eq_some_iff.mp hstep
    cases heq
    obtain rfl : x = .disconnected c := by simpa [runTask] using mem_runTask_of_mem hx
    exact hmine (h.handled l c (by rw [hpc]; rfl))
  | closing c =>
    simp only [hpc] at hstep
    obtain ⟨k, hk, heq⟩ := Option.map_eq_some_iff.mp hstep
    cases heq
    obtain rfl := List.mem_singleton.mp hx
    exact hmine (h.handled l c (by rw [hpc]; rfl))
  | functors =>
    simp only [hpc] at hstep
    cases htodo : (s.loops l).todo with
    | nil =>
      simp only [htodo, Option.some.injEq, Prod.mk.injEq] at hstep
      rw [← hstep.2] at hx
      cases hx
    | cons task todo =>
      simp only [htodo, Option.some.injEq] at hstep
      obtain ⟨c, rfl, hc⟩ := h.tasks l task (by simp [Loop.tasks, htodo])
      obtain rfl : _ = o := congrArg Prod.snd hstep
      obtain rfl : x = .established c := by simpa [runTask] using hx
      exact hmine hc
  | returning | closed =>
    simp only [hpc, Option.some.injEq, Prod.mk.injEq] at hstep
    rw [← hstep.2] at hx
    cases hx
  | idle | accepted | callback => simp only [hpc, reduceCtorEq] at hstep

lemma Confined.onThread {e : Event n} (h : Confined s)
    (hstep : TcpServer.step s e = some (t, o))
    {x : Obs} (hx : x ∈ o) : OnThread s e x := by
  cases e with
  | next l => exact h.next hstep hx
  | create c l =>
    simp only [TcpServer.step] at hstep
    split at hstep <;> cases hstep
    obtain rfl := List.mem_singleton.mp hx
    exact ⟨c, l, rfl⟩
  | accept | leave | swap | keep | drop =>
    simp only [TcpServer.step] at hstep
    split at hstep <;> cases hstep
    cases hx
  | callback | close | destroy =>
    simp only [TcpServer.step] at hstep
    split at hstep
    · split at hstep <;> cases hstep
      cases hx
    · cases hstep

/-- In every reachable state the connections a loop handles and the functors in its queue are its
own, none of these is a `connectDestroyed`, and in every step from there a connection is
registered, removed from the map and taken out of the interest list by the thread of its loop. -/
theorem loop_confined (h : (system n).Reachable s) : Confined s ∧
    ∀ e t o, step s e = some (t, o) → ∀ x ∈ o, OnThread s e x := by
  have hc := confined_of_reachable h
  exact ⟨hc, fun _ _ _ hstep _ => hc.onThread hstep⟩

/-- The main loop has queued a connection at the loop 1. -/
theorem loop_confined_queued : ∃ s : State 1, (system 1).Reachable s ∧
    .connectEstablished 0 ∈ (s.loops 1).tasks ∧ Confined s := by
  obtain ⟨s, obs, hexec, hmem⟩ : ∃ s obs, (system 1).exec (init 1)
      [.accept 5, .create 0 1, .next 0] = some (s, obs) ∧
        .connectEstablished 0 ∈ (s.loops 1).tasks := ⟨_, _, rfl, by decide⟩
  have hrun : (system 1).Run obs s := .of_exec _ hexec
  exact ⟨s, hrun.reachable, hmem, (loop_confined hrun.reachable).1⟩

end ClwServer.TcpServer
