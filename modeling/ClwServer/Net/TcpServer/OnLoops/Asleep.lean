import ClwServer.Net.EventLoop.Wakeup
import ClwServer.Net.TcpServer.OnLoops.Refinement

/-!
# A loop that sleeps

While a loop sleeps in `epoll_wait`, and is not about to be woken, it has no functor left to run.
All its connections in the map are then in its interest list, whatever the other loops do: only
the one that `newConnection` has not handed over yet is not.
-/

namespace ClwServer.TcpServer

open Cpp

variable {n : ℕ} {s : State n} {l : Fin (n + 1)} {c : ConnId} {k : Conn n} {obs : List Obs}

/-! ### A loop without functors -/

/-- The loop does nothing, and nothing waits for it. -/
structure Unused (L : Loop) : Prop where
  idle : L.pc = .idle
  pending : L.pendingFunctors = []

/-- The thread has a new descriptor, or is in `newConnection`. -/
def Pc.New : Pc → Prop
  | .accepted _ | .inserted _ | .returning _ => True
  | .idle | .callback _ | .closing _ | .erased _ | .closed _ | .functors => False

/-- Connections are made by the thread of the main loop. -/
lemma eq_zero_of_new (h : (system n).Reachable s) (hnew : (s.loops l).pc.New) : l = 0 := by
  have hall : ∀ l, (s.loops l).pc.New → l = 0 := by
    refine h.invariant (P := fun s => ∀ l, (s.loops l).pc.New → l = 0) (fun _ h => h.elim) ?_
    intro s e t o _ hs hstep l hnew
    rcases goes_of_step hstep with ⟨i, pc, hg, hpc⟩ | ⟨hpc, -⟩
    · rw [hpc l] at hnew
      split at hnew
      · rename_i hl
        subst hl
        have hold := hs l
        generalize (s.loops l).pc = old at hg hold
        cases hg with
        | accept | create => rfl
        | establish => exact hold trivial
        | callback | close | leave | swap | returnNew | erase | disconnect | returnClose | run
        | batchDone => exact hnew.elim
      · exact hs l hnew
    · rw [hpc l] at hnew
      exact hs l hnew
  exact hall l hnew

lemma eq_of_loopOf {i : Fin (n + 1)} (hk : s.conns c = some k)
    (h : loopOf s c = some i.val) : i = k.loop :=
  Fin.ext (Option.some.inj (h.symm.trans (loopOf_eq hk)))

/-- Where the thread of the loop is idle and its queue is empty, no functor is bound to a
connection of the loop. -/
lemma Unused.task_of_conn (h : Unused (s.loops l)) (hconf : Confined s) (hk : s.conns c = some k)
    (hloop : k.loop = l) {i : Fin (n + 1)} {task : Task} (htask : task ∈ (s.loops i).tasks) :
    task.conn ≠ c := by
  rintro rfl
  obtain ⟨d, rfl, hd⟩ := hconf.tasks i task htask
  obtain rfl : i = l := (eq_of_loopOf hk hd).trans hloop
  obtain ⟨hran, htodo⟩ := hconf.whole i (by simp [h.idle])
  simp [Loop.tasks, h.pending, hran, htodo] at htask

/-- The connections of the loop in the map are in the interest list, and the other way round,
except for one that `newConnection` is about to hand over. -/
lemma Unused.registered_iff (h : Unused (s.loops l)) (hr : (system n).Run obs s)
    (hk : s.conns c = some k) (hloop : k.loop = l) :
    k.registered = true ↔
      s.connectionMap.lookup k.fd = some c ∧ (s.loops 0).pc ≠ .inserted c := by
  have hconf := confined_of_reachable hr.reachable
  obtain ⟨st, -, hholds⟩ := life_of_run hr c
  cases hholds with
  | absent hnone =>
    rw [hnone] at hk
    cases hk
  | present k' _ hk' hat =>
    obtain rfl : k = k' := Option.some.inj (hk.symm.trans hk')
    have herased : st ≠ .erased := by
      rintro rfl
      have hpc := hat.erased.mpr (.inl rfl)
      rw [hloop, h.idle] at hpc
      cases hpc
    -- what waits for `connectEstablished` is still with `newConnection`
    have hcreated : st = .created ↔ (s.loops 0).pc = .inserted c := by
      constructor
      · rintro rfl
        have hone := hat.awaiting
        rw [if_pos rfl] at hone
        obtain ⟨i, -, hi⟩ := Finset.exists_ne_zero_of_sum_ne_zero (hone ▸ Nat.one_ne_zero)
        by_cases hpc : (s.loops i).pc = .inserted c
        · rw [← eq_zero_of_new hr.reachable (l := i) (by rw [hpc]; trivial)]
          exact hpc
        · rw [Loop.awaits, if_neg hpc, Nat.zero_add, ← Nat.pos_iff_ne_zero, List.count_pos_iff,
            List.mem_append] at hi
          have htask : .connectEstablished c ∈ (s.loops i).tasks := by
            simp only [Loop.tasks, List.mem_append]
            tauto
          exact absurd rfl (h.task_of_conn hconf hk hloop htask)
      · intro hpc
        by_contra hne
        have hzero := hat.awaiting
        rw [if_neg hne] at hzero
        have hle := awaits_le (s := s) (c := c) 0
        rw [hzero, Loop.awaits, if_pos hpc] at hle
        omega
    rw [hat.registered, hat.mapped, Ne, ← hcreated]
    simp only [herased, or_false]
    cases st <;> simp

/-- Only the map, the application and `newConnection` point to a connection of the loop. -/
lemma Unused.held (h : Unused (s.loops l)) (hr : (system n).Reachable s)
    (hk : s.conns c = some k) (hloop : k.loop = l) (hheld : Held s c) :
    s.connectionMap.lookup k.fd = some c ∨ 0 < kept s c ∨ (s.loops 0).pc.ref = some c := by
  have hconf := confined_of_reachable hr
  rcases hheld with ⟨⟨fd, c⟩, hmem, rfl⟩ | ⟨i, hi⟩ | hkept
  · left
    have hlookup := AList.mem_lookup_iff.mpr hmem
    obtain ⟨k', hk', -, rfl⟩ := (inv_of_reachable hr).entry fd c hlookup
    obtain rfl : k = k' := Option.some.inj (hk.symm.trans hk')
    exact hlookup
  · right
    right
    rcases List.mem_append.mp hi with href | htask
    · rw [Option.mem_toList] at href
      have hcases : (s.loops i).pc.New ∨ (s.loops i).pc.handled = some c := by
        generalize (s.loops i).pc = pc at href
        cases pc with
        | inserted | returning => exact .inl trivial
        | closing | erased | closed => exact .inr href
        | idle | accepted | callback | functors => cases href
      rcases hcases with hnew | hhandled
      · rw [← eq_zero_of_new hr hnew]
        exact href
      · obtain rfl : i = l := (eq_of_loopOf hk (hconf.handled i c hhandled)).trans hloop
        rw [h.idle] at href
        cases href
    · obtain ⟨task, hmem, rfl⟩ := List.mem_map.mp htask
      exact absurd rfl (h.task_of_conn hconf hk hloop hmem)
  · exact .inr (.inl hkept)

/-! ### Sleep -/

/-- The loop thread is in `epoll_wait`, the kernel has nothing to report of `wakeupFd_`, and no
thread is in `queueInLoop`, behind its section. -/
structure Asleep (u : EventLoop.State LoopFunctor) : Prop where
  wait : u.pc = .wait
  unannounced : ¬u.wakeupFd.Undelivered
  calls : ∀ t, u.callers t ≠ .pushed

lemma Asleep.pending {u : EventLoop.State LoopFunctor} (h : Asleep u)
    (hr : (EventLoop.system LoopFunctor).Reachable u) : u.pendingFunctors = [] := by
  have hi := EventLoop.inv_of_reachable hr
  by_contra hne
  rcases hi.served hne with hahead | hown | ⟨t, ht⟩ | hannounced
  · simp only [EventLoop.SwapAhead, h.wait] at hahead
  · have huser := hi.user (.inl (by simp [hown]))
    simp only [EventLoop.AtUserCode, h.wait] at huser
  · exact h.calls t ht
  · exact h.unannounced hannounced

/-- A loop that sleeps has no functor of the server left. -/
lemma unused_of_asleep {b : Rounds n} {u : EventLoop.State LoopFunctor} (hs : b.Sound)
    (hmatches : Matches (b.view l) u) (hr : (EventLoop.system LoopFunctor).Reachable u)
    (hasleep : Asleep u) : Unused (b.server.loops l) where
  idle := by
    have hfits := hmatches.fits
    rw [hasleep.wait] at hfits
    exact (hs.stands l).idle (.inl (hfits.phase_eq trivial))
  pending := by
    have hpending := hmatches.pending
    rw [hasleep.pending hr] at hpending
    exact hpending.symm

/-- While a loop of a server sleeps, whatever the other loops and the application do: of its
connections those in the interest list are those in the map, except for one that the main loop is
about to hand over; and only the map, the application and `newConnection` point to one. -/
theorem asleep_exact {p : Except Fault (Rounds n) × (Fin (n + 1) → EventLoop.State LoopFunctor)}
    (h : (onLoops n).Reachable p) (hasleep : Asleep (p.2 l)) :
    ∃ b, p.1 = .ok b ∧ ∀ c k, b.server.conns c = some k → k.loop = l →
      (k.registered = true ↔ b.server.connectionMap.lookup k.fd = some c ∧
        (b.server.loops 0).pc ≠ .inserted c) ∧
      (Held b.server c → b.server.connectionMap.lookup k.fd = some c ∨ 0 < kept b.server c ∨
        (b.server.loops 0).pc.ref = some c) := by
  obtain ⟨obs, hrun⟩ := h
  obtain ⟨b, hb, hr, hs, hmatches⟩ := exists_matches hrun
  have hunused := unused_of_asleep hs (hmatches l) (hrun.snd.copy l).reachable hasleep
  refine ⟨b, hb, fun c k hk hloop => ⟨hunused.registered_iff hr hk hloop, fun hheld => ?_⟩⟩
  exact hunused.held hr.reachable hk hloop hheld

/-- A loop sleeps with its first connection, while the main loop is still in `newConnection`. -/
theorem asleep_exact_first : ∃ (p : Except Fault (Rounds 1) × (Fin 2 → EventLoop.State LoopFunctor))
    (b : Rounds 1) (k : Conn 1), (onLoops 1).Reachable p ∧ Asleep (p.2 1) ∧ p.1 = .ok b ∧
      (b.server.loops 0).pc = .returning 0 ∧ b.server.conns 0 = some k ∧ k.registered = true := by
  obtain ⟨p, obs, b, k, hexec, hwait, hfd, hcallers, hb, hpc, hk, hloop, hlookup⟩ :
      ∃ p obs b k, (onLoops 1).exec (onLoops 1).init
        [(none, some (0, .loop)), (none, some (0, .loop)), (none, some (0, .loop)),
          (none, some (1, .loop)), (none, some (1, .loop)), (none, some (1, .loop)),
          (some (.epollWait 0 [.acceptor]), some (0, .poll [0] [] false)),
          (some (.handleEvent 0), some (0, .loop)), (some (.server (.accept 5)), none),
          (some (.server (.create 0 1)), none),
          (some (.server (.next 0)), some (1, .queue 0 (.ofServer (.connectEstablished 0)))),
          (none, some (1, .wake 0)), (some (.epollWait 1 [.wakeup]), some (1, .poll [] [] true)),
          (some (.handleEvent 1), none), (some (.returns 1), some (1, .loop)),
          (none, some (1, .loop)), (none, some (1, .loop)),
          (some (.server (.swap 1)), some (1, .loop)),
          (some (.server (.next 1)), some (1, .loop)), (none, some (1, .ownReturn)),
          (some (.server (.next 1)), some (1, .loop)), (none, some (1, .loop)),
          (none, some (1, .loop))] = some (p, obs) ∧
      (p.2 1).pc = .wait ∧ ¬(p.2 1).wakeupFd.Undelivered ∧
      (∀ t, (p.2 1).callers t ≠ .pushed) ∧ p.1 = .ok b ∧ (b.server.loops 0).pc = .returning 0 ∧
      b.server.conns 0 = some k ∧ k.loop = 1 ∧ b.server.connectionMap.lookup k.fd = some 0 := by
    refine ⟨_, _, _, _, rfl, rfl, by decide, fun t => ?_, rfl, rfl, rfl, rfl, by decide⟩
    cases t with
    | zero => exact nofun
    | succ t => exact nofun
  have hasleep : Asleep (p.2 1) := ⟨hwait, hfd, hcallers⟩
  have hr : (onLoops 1).Reachable p := (System.Run.of_exec _ hexec).reachable
  obtain ⟨b', hb', hexact⟩ := asleep_exact hr hasleep
  obtain rfl : b = b' := Except.ok.inj (hb.symm.trans hb')
  refine ⟨p, b, k, hr, hasleep, hb, hpc, hk, (hexact 0 k hk hloop).1.mpr ⟨hlookup, ?_⟩⟩
  rw [hpc]
  nofun

end ClwServer.TcpServer
