import ClwServer.Net.EventLoopThreadPool
import ClwServer.Net.TcpServer.Invariant

/-!
# The loop of a new connection

`newConnection` asks the pool for the loop of the connection. The server of `TcpServer.Basic` leaves
the loop open; here it stands beside its pool.
-/

namespace ClwServer.TcpServer

open Cpp EventLoopThreadPool RoundRobin

variable {n : ℕ}

/-- A server with its pool. -/
structure Pooled (n : ℕ) where
  server : State n
  threadPool_ : Pool

/-- `newConnection` puts the connection on a loop. -/
structure Handed where
  conn : ConnId
  loop : LoopId
  deriving DecidableEq

/-- `newConnection`, up to the insertion of the connection `c`, for the loop `l`. -/
def newConnection (s : Pooled n) (c : ConnId) (l : Fin (n + 1)) :
    Option (Except Fault (Pooled n × List Handed)) :=
  match getNextLoop s.threadPool_ with
  | .error f => (step s.server (.create c l)).map fun _ => .error f
  | .ok (ioLoop, pool) =>
    if ioLoop = l then
      (step s.server (.create c l)).map fun r => .ok (⟨r.1, pool⟩, [⟨c, ioLoop⟩])
    else
      none

def call (s : Pooled n) (e : Event n) : Option (Except Fault (Pooled n × List Handed)) :=
  match e with
  | .create c l => newConnection s c l
  | e => (step s.server e).map fun r => .ok ({ s with server := r.1 }, [])

/-- A server that `start` has been called for, with `numThread` threads. -/
def pooled (numThread : IntType.int.Val) :
    System (Except Fault (Pooled numThread.val.toNat)) (Event numThread.val.toNat) Handed :=
  .faulting ⟨init _, started 0 numThread⟩ call

/-- The loop of a connection. -/
def loopOf (s : State n) (c : ConnId) : Option LoopId := (s.conns c).map fun k => k.loop

variable {s t : State n} {c : ConnId} {l : Fin (n + 1)} {o : List Obs}

lemma call_of_ne {s : Pooled n} {e : Event n} (he : ∀ c l, e ≠ .create c l) :
    call s e = (step s.server e).map fun r => .ok ({ s with server := r.1 }, []) := by
  cases e with
  | create c l => exact absurd rfl (he c l)
  | _ => rfl

lemma step_of_call {s t : Pooled n} {e : Event n} {o : List Handed}
    (h : call s e = some (.ok (t, o))) : ∃ o', step s.server e = some (t.server, o') := by
  by_cases he : ∃ c l, e = .create c l
  · obtain ⟨c, l, rfl⟩ := he
    simp only [call, newConnection] at h
    split at h
    · obtain ⟨_, -, heq⟩ := Option.map_eq_some_iff.mp h
      cases heq
    · obtain ⟨-, h⟩ := Option.ite_none_right_eq_some.mp h
      obtain ⟨⟨u, o'⟩, hstep, heq⟩ := Option.map_eq_some_iff.mp h
      cases heq
      exact ⟨o', hstep⟩
  · rw [call_of_ne fun c l heq => he ⟨c, l, heq⟩] at h
    obtain ⟨⟨u, o'⟩, hstep, heq⟩ := Option.map_eq_some_iff.mp h
    cases heq
    exact ⟨o', hstep⟩

/-! ### The loop of a connection stays -/

lemma loopOf_updateConn {f : Conn n → Conn n} (hf : ∀ k, (f k).loop = k.loop) :
    loopOf (updateConn s c f) = loopOf s := by
  funext d
  by_cases hdc : d = c
  · subst hdc
    simp [loopOf, updateConn, Function.comp_def, hf]
  · simp [loopOf, updateConn, hdc]

lemma loopOf_runTask (task : Task) : loopOf (runTask s task).1 = loopOf s := by
  cases task <;> exact loopOf_updateConn fun _ => rfl

lemma loopOf_runInLoop (l' : Fin (n + 1)) (task : Task) :
    loopOf (runInLoop s l l' task).1 = loopOf s := by
  rcases runInLoop_cases s l l' task with heq | heq <;> rw [heq]
  · exact loopOf_runTask task
  · rfl

lemma loopOf_next (h : next s l = some (t, o)) : loopOf t = loopOf s := by
  simp only [next] at h
  cases hpc : (s.loops l).pc with
  | inserted | erased =>
    simp only [hpc] at h
    obtain ⟨k, -, heq⟩ := Option.map_eq_some_iff.mp h
    cases heq
    exact loopOf_runInLoop ..
  | closing =>
    simp only [hpc] at h
    obtain ⟨k, -, heq⟩ := Option.map_eq_some_iff.mp h
    cases heq
    rfl
  | returning | closed =>
    simp only [hpc, Option.some.injEq, Prod.mk.injEq] at h
    rw [← h.1]
    rfl
  | functors =>
    simp only [hpc] at h
    cases htodo : (s.loops l).todo with
    | nil =>
      simp only [htodo, Option.some.injEq, Prod.mk.injEq] at h
      rw [← h.1]
      rfl
    | cons task todo =>
      simp only [htodo, Option.some.injEq] at h
      obtain rfl : _ = t := congrArg Prod.fst h
      exact loopOf_runTask task
  | idle | accepted | callback => simp only [hpc, reduceCtorEq] at h

/-- Only `newConnection` sets the loop of a connection. -/
lemma loopOf_step {e : Event n} (he : ∀ c l, e ≠ .create c l) (h : step s e = some (t, o)) :
    loopOf t = loopOf s := by
  cases e with
  | create c l => exact absurd rfl (he c l)
  | next l => exact loopOf_next h
  | accept | swap =>
    simp only [step] at h
    split at h <;> cases h
    rfl
  | leave =>
    simp only [step] at h
    split at h <;> cases h
    rfl
  | callback | close =>
    simp only [step] at h
    split at h
    · split at h <;> cases h
      rfl
    · cases h
  | keep | drop =>
    simp only [step] at h
    split at h <;> cases h
    exact loopOf_updateConn fun _ => rfl
  | destroy =>
    simp only [step] at h
    split at h
    · split at h <;> cases h
      exact loopOf_updateConn fun _ => rfl
    · cases h

lemma loopOf_create (h : step s (.create c l) = some (t, o)) :
    loopOf s c = none ∧ loopOf t = Function.update (loopOf s) c (some l) := by
  simp only [step] at h
  split at h
  · rename_i fd hpc hc
    cases h
    refine ⟨by simp [loopOf, hc], ?_⟩
    funext d
    by_cases hdc : d = c
    · subst hdc
      simp [loopOf]
    · simp [loopOf, hdc]
  · cases h

/-! ### What the pool has handed out -/

/-- The connections stand with the loops the pool has returned for them. -/
structure Dispatched {numThread : IntType.int.Val} (obs : List Handed)
    (s : Pooled numThread.val.toNat) : Prop where
  taken : calls (started 0 numThread) obs.length = .ok (obs.map Handed.loop, s.threadPool_)
  recorded : ∀ c loop, ⟨c, loop⟩ ∈ obs ↔ loopOf s.server c = some loop
  nodup : (obs.map Handed.conn).Nodup

variable {numThread : IntType.int.Val} {obs : List Handed}

lemma Dispatched.create {s : Pooled numThread.val.toNat} {t : State numThread.val.toNat}
    {l : Fin (numThread.val.toNat + 1)} {pool : Pool} (hs : Dispatched obs s)
    (hstep : step s.server (.create c l) = some (t, o))
    (hnext : getNextLoop s.threadPool_ = .ok (l, pool)) :
    Dispatched (obs ++ [⟨c, l⟩]) ⟨t, pool⟩ := by
  obtain ⟨hnone, hloop⟩ := loopOf_create hstep
  have hfresh : ∀ loop, ⟨c, loop⟩ ∉ obs := by
    intro loop hmem
    rw [hs.recorded, hnone] at hmem
    cases hmem
  refine ⟨?_, ?_, ?_⟩
  · rw [List.length_append, List.map_append]
    exact calls_succ hs.taken hnext
  · intro d loop
    rw [List.mem_append, hs.recorded, hloop]
    by_cases hdc : d = c
    · subst hdc
      simp [hnone, eq_comm]
    · simp [hdc]
  · rw [List.map_append, List.nodup_append]
    refine ⟨hs.nodup, by simp, ?_⟩
    simp only [List.mem_map, List.map_cons, List.map_nil, List.mem_singleton]
    rintro _ ⟨⟨d, loop⟩, hmem, rfl⟩ _ rfl rfl
    exact hfresh loop hmem

lemma Dispatched.of_step {s : Pooled numThread.val.toNat} {t : State numThread.val.toNat}
    {e : Event numThread.val.toNat} (hs : Dispatched obs s) (he : ∀ c l, e ≠ .create c l)
    (hstep : step s.server e = some (t, o)) : Dispatched obs { s with server := t } where
  taken := hs.taken
  recorded := by
    intro c loop
    rw [loopOf_step he hstep]
    exact hs.recorded c loop
  nodup := hs.nodup

/-- No step faults, and each connection goes to the loop whose turn it is. -/
lemma Dispatched.of_call {s : Pooled numThread.val.toNat} {e : Event numThread.val.toNat}
    {r : Except Fault (Pooled numThread.val.toNat × List Handed)} (hs : Dispatched obs s)
    (h : call s e = some r) : ∃ t o, r = .ok (t, o) ∧ Dispatched (obs ++ o) t := by
  by_cases he : ∃ c l, e = .create c l
  · obtain ⟨c, l, rfl⟩ := he
    obtain ⟨loop, pool, hnext, -⟩ := getNextLoop_of_calls hs.taken
    simp only [call, newConnection, hnext] at h
    obtain ⟨rfl, h⟩ := Option.ite_none_right_eq_some.mp h
    obtain ⟨⟨t, o⟩, hstep, rfl⟩ := Option.map_eq_some_iff.mp h
    exact ⟨_, _, rfl, hs.create hstep hnext⟩
  · have hne : ∀ c l, e ≠ .create c l := fun c l heq => he ⟨c, l, heq⟩
    rw [call_of_ne hne] at h
    obtain ⟨⟨t, o⟩, hstep, rfl⟩ := Option.map_eq_some_iff.mp h
    refine ⟨_, _, rfl, ?_⟩
    rw [List.append_nil]
    exact hs.of_step hne hstep

lemma dispatched_init : Dispatched [] ⟨init numThread.val.toNat, started 0 numThread⟩ where
  taken := rfl
  recorded := by simp [loopOf, init]
  nodup := List.nodup_nil

lemma dispatched_of_run {r : Except Fault (Pooled numThread.val.toNat)}
    (h : (pooled numThread).Run obs r) : ∃ s, r = .ok s ∧ Dispatched obs s := by
  refine h.invariant (P := fun obs r => ∃ s, r = .ok s ∧ Dispatched obs s)
    ⟨_, rfl, dispatched_init⟩ ?_
  rintro obs _ e r o - ⟨s, rfl, hs⟩ he
  exact System.faulting_step_safe (P := fun t o => Dispatched (obs ++ o) t) he fun _ => hs.of_call

/-- With a new descriptor, `newConnection` never waits for the pool. -/
lemma Dispatched.enabled {s : Pooled numThread.val.toNat} {fd : ℕ} (hs : Dispatched obs s)
    (hpc : (s.server.loops 0).pc = .accepted fd) (hc : s.server.conns c = none) :
    ∃ l t, call s (.create c l) = some t := by
  obtain ⟨loop, pool, hnext, hloop⟩ := getNextLoop_of_calls hs.taken
  obtain ⟨l, rfl⟩ : ∃ l : Fin (numThread.val.toNat + 1), loop = l := by
    rcases hloop with rfl | ⟨t, ht, rfl⟩
    · exact ⟨0, rfl⟩
    · exact ⟨⟨t + 1, by omega⟩, rfl⟩
  refine ⟨l, ?_⟩
  simp [call, newConnection, hnext, step, hpc, hc]

/-- The server with its pool is the server, with the loops chosen. -/
lemma reachable_server {s : Pooled numThread.val.toNat} (h : (pooled numThread).Run obs (.ok s)) :
    (system numThread.val.toNat).Reachable s.server := by
  refine h.ok_invariant (P := fun _ s => (system _).Reachable s.server) ⟨[], System.Run.init⟩ ?_
  rintro _ s e t o ⟨obs', hrun⟩ hcall
  obtain ⟨o', hstep⟩ := step_of_call hcall
  exact ⟨obs' ++ o', hrun.step hstep⟩

/-- A pool that has been started has a loop for each thread, and hands them out in turn; a server
with a pool spreads its connections evenly. An empty pool hands out the main loop. -/
theorem getNextLoop_fair (numThread : IntType.int.Val) :
    (∀ baseLoop, (started baseLoop numThread).loops_.length = numThread.val.toNat) ∧
    (∀ baseLoop k, ∃ returned q,
      calls (started baseLoop numThread) k = .ok (returned, q) ∧ returned.length = k ∧
        ((started baseLoop numThread).loops_ = [] →
          (∀ loop ∈ returned, loop = baseLoop) ∧ q = started baseLoop numThread) ∧
        ((started baseLoop numThread).loops_ ≠ [] →
          q.loops_ = (started baseLoop numThread).loops_ ∧
            (0 ≤ q.next_.val ∧ q.next_.val < q.loops_.length) ∧ Fair q.loops_ returned)) ∧
    ∀ obs r, (pooled numThread).Run obs r → ∃ s, r = .ok s ∧
      (∀ c loop, ⟨c, loop⟩ ∈ obs ↔ loopOf s.server c = some loop) ∧
      (obs.map Handed.conn).Nodup ∧
        ∀ loop ∈ (started 0 numThread).loops_, ∀ loop' ∈ (started 0 numThread).loops_,
          (obs.map Handed.loop).count loop ≤ (obs.map Handed.loop).count loop' + 1 := by
  refine ⟨fun baseLoop => length_started, ?_, ?_⟩
  · intro baseLoop k
    obtain ⟨returned, q, hcalls, hlen, hnil, hturn⟩ := calls_started baseLoop numThread k
    refine ⟨returned, q, hcalls, hlen, fun h => ?_, fun h => ?_⟩
    · obtain ⟨rfl, rfl⟩ := hnil h
      exact ⟨fun _ => List.eq_of_mem_replicate, rfl⟩
    · obtain ⟨rfl, hat, hloops⟩ := hturn h
      refine ⟨hloops, hat.next_mem, ?_⟩
      rw [hloops]
      exact fair_served h nodup_started k
  · intro obs r h
    obtain ⟨s, rfl, hs⟩ := dispatched_of_run h
    refine ⟨s, rfl, hs.recorded, hs.nodup, fun loop hloop loop' hloop' => ?_⟩
    obtain ⟨_, _, hcalls, -, -, hturn⟩ := calls_started 0 numThread obs.length
    rw [hs.taken] at hcalls
    cases hcalls
    rw [(hturn (List.ne_nil_of_mem hloop)).1]
    exact count_served_le nodup_started hloop hloop' _

/-- Three threads, and five connections for them. -/
theorem getNextLoop_fair_three : ∃ returned q,
    calls (started 0 ⟨3, by decide, by decide⟩) 5 = .ok (returned, q) ∧
      returned = [1, 2, 3, 1, 2] ∧ q.loops_.length = 3 ∧ q.next_.val = 2 ∧
      Fair q.loops_ returned := by
  obtain ⟨hlen, hcalls, -⟩ := getNextLoop_fair ⟨3, by decide, by decide⟩
  obtain ⟨returned, q, heq, -, -, hturn⟩ := hcalls 0 5
  have hne : (started 0 ⟨3, by decide, by decide⟩).loops_ ≠ [] := by
    rw [← List.length_pos_iff, hlen]
    decide
  obtain ⟨hloops, -, hfair⟩ := hturn hne
  have hfive : calls (started 0 ⟨3, by decide, by decide⟩) 5 =
      .ok ([1, 2, 3, 1, 2], { started 0 ⟨3, by decide, by decide⟩ with
        next_ := ⟨2, by decide, by decide⟩ }) := rfl
  rw [heq] at hfive
  cases hfive
  exact ⟨_, _, heq, rfl, hlen 0, rfl, hfair⟩

end ClwServer.TcpServer
