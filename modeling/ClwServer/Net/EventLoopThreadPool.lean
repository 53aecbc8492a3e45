import ClwServer.Core.IntType
import ClwServer.Core.RoundRobin

/-!
# The pool of IO loops

`EventLoopThreadPool.cc`. `start` makes one thread after the other and keeps what `startLoop`
returns for it; `getNextLoop` hands the loops out in turn. The `EventLoop` objects are numbered in
the order of their construction: 0 is the main loop.
-/

namespace ClwServer.EventLoopThreadPool

open Cpp RoundRobin

/-- An `EventLoop *`. -/
abbrev LoopId := ℕ

/-- An `EventLoopThread`, by the order in which `start` makes them. -/
abbrev ThreadId := ℕ

/-- `t->startLoop()`: the loop of the thread. -/
def startLoop (t : ThreadId) : LoopId := t + 1

/-- The members of `EventLoopThreadPool`. -/
structure Pool where
  baseLoop_ : LoopId
  numThread_ : IntType.int.Val
  next_ : IntType.int.Val
  threads_ : List ThreadId
  loops_ : List LoopId

/-- The constructor. -/
def construct (baseLoop : LoopId) (numThread : IntType.int.Val) : Pool :=
  ⟨baseLoop, numThread, 0, [], []⟩

/-- One turn of the loop in `start`. -/
def addThread (p : Pool) : Pool :=
  let t := p.threads_.length
  { p with threads_ := p.threads_ ++ [t], loops_ := p.loops_ ++ [startLoop t] }

/-- `start` -/
def start (p : Pool) : Pool := addThread^[p.numThread_.val.toNat] p

/-- The pool that `TcpServer::start` leaves. -/
def started (baseLoop : LoopId) (numThread : IntType.int.Val) : Pool :=
  start (construct baseLoop numThread)

/-- `loops_[i]` -/
def loopAt (p : Pool) (i : ℕ) : Except Fault LoopId :=
  match p.loops_[i]? with
  | some loop => .ok loop
  | none => .error .overrun

/-- `getNextLoop`. The index and the bound of the test are converted to `size_t`. -/
def getNextLoop (p : Pool) : Except Fault (LoopId × Pool) :=
  if p.loops_.isEmpty then
    .ok (p.baseLoop_, p)
  else do
    let loop ← loopAt p p.next_.toSize
    let next_ ← p.next_.increment
    .ok (loop, { p with next_ := if p.loops_.length ≤ next_.toSize then 0 else next_ })

/-- What `k` calls of `getNextLoop` return, and the pool they leave. -/
def calls (p : Pool) : ℕ → Except Fault (List LoopId × Pool)
  | 0 => .ok ([], p)
  | k + 1 => do
    let (returned, q) ← calls p k
    let (loop, q) ← getNextLoop q
    .ok (returned ++ [loop], q)

variable {p q : Pool} {k : ℕ}

/-! ### The threads -/

lemma iterate_addThread (baseLoop : LoopId) (numThread : IntType.int.Val) (m : ℕ) :
    addThread^[m] (construct baseLoop numThread) =
      ⟨baseLoop, numThread, 0, List.range m, (List.range m).map startLoop⟩ := by
  induction m with
  | zero => rfl
  | succ m ih =>
    rw [Function.iterate_succ_apply', ih]
    simp [addThread, List.range_succ]

lemma started_eq (baseLoop : LoopId) (numThread : IntType.int.Val) :
    started baseLoop numThread = ⟨baseLoop, numThread, 0, List.range numThread.val.toNat,
      (List.range numThread.val.toNat).map startLoop⟩ :=
  iterate_addThread baseLoop numThread _

variable {baseLoop : LoopId} {numThread : IntType.int.Val}

lemma loops_started : (started baseLoop numThread).loops_ =
    (List.range numThread.val.toNat).map startLoop := by
  rw [started_eq]

lemma nodup_started : (started baseLoop numThread).loops_.Nodup := by
  rw [loops_started]
  exact List.nodup_range.map Nat.succ_injective

lemma length_started : (started baseLoop numThread).loops_.length = numThread.val.toNat := by
  rw [loops_started, List.length_map, List.length_range]

/-- The number of threads is an `int`. -/
lemma length_started_le : ((started baseLoop numThread).loops_.length : ℤ) ≤ IntType.int.max := by
  have hle := numThread.val_le
  have hmax := IntType.int.le_max
  rw [length_started]
  omega

/-! ### The turns -/

/-- The pool stands in front of the turn `k` of its round robin. -/
structure AtTurn (p : Pool) (k : ℕ) : Prop where
  ne_nil : p.loops_ ≠ []
  length_le : (p.loops_.length : ℤ) ≤ IntType.int.max
  next_ : p.next_.val = (k % p.loops_.length : ℕ)

lemma AtTurn.next_mem (h : AtTurn p k) : 0 ≤ p.next_.val ∧ p.next_.val < p.loops_.length := by
  have hlt := Nat.mod_lt k (List.length_pos_iff.mpr h.ne_nil)
  rw [h.next_]
  omega

/-- A call in front of the turn `k` returns the loop of that turn, and wraps `next_` around behind
the last one. -/
lemma AtTurn.getNextLoop (h : AtTurn p k) : ∃ loop q, getNextLoop p = .ok (loop, q) ∧
    p.loops_[k % p.loops_.length]? = some loop ∧ q.loops_ = p.loops_ ∧ AtTurn q (k + 1) := by
  have hpos := List.length_pos_iff.mpr h.ne_nil
  have hlt := Nat.mod_lt k hpos
  have hlen : (p.loops_.length : ℤ) ≤ 2 ^ 31 - 1 := h.length_le
  obtain ⟨loop, hloop⟩ : ∃ loop, p.loops_[k % p.loops_.length]? = some loop :=
    ⟨_, List.getElem?_eq_getElem hlt⟩
  have hsize : p.next_.toSize = k % p.loops_.length :=
    IntType.Val.toSize_of_nonneg h.next_ (by omega)
  obtain ⟨j, hj, hjval⟩ : ∃ j, p.next_.increment = .ok j ∧ j.val = p.next_.val + 1 := by
    apply IntType.Val.increment_of_lt
    rw [h.next_]
    exact Int.lt_of_lt_of_le (Int.ofNat_lt.mpr hlt) h.length_le
  rw [h.next_] at hjval
  have hjsize : j.toSize = k % p.loops_.length + 1 :=
    IntType.Val.toSize_of_nonneg hjval (by omega)
  refine ⟨loop, { p with next_ := if p.loops_.length ≤ j.toSize then 0 else j }, ?_, hloop, rfl,
    h.ne_nil, h.length_le, ?_⟩
  · have hat : loopAt p p.next_.toSize = .ok loop := by rw [loopAt, hsize, hloop]
    rw [EventLoopThreadPool.getNextLoop, if_neg (by simp [h.ne_nil]), hat, hj]
    rfl
  · change (if p.loops_.length ≤ j.toSize then (0 : IntType.int.Val) else j).val = _
    rw [hjsize, ← wrap_succ hpos]
    split_ifs
    · rfl
    · exact hjval

lemma calls_succ {returned : List LoopId} {loop : LoopId} {r : Pool}
    (hcalls : calls p k = .ok (returned, q)) (hnext : getNextLoop q = .ok (loop, r)) :
    calls p (k + 1) = .ok (returned ++ [loop], r) := by
  rw [calls, hcalls]
  simp only [ok_bind, hnext]

lemma AtTurn.calls (h : AtTurn p 0) (k : ℕ) : ∃ q, calls p k = .ok (served p.loops_ k, q) ∧
    q.loops_ = p.loops_ ∧ AtTurn q k := by
  induction k with
  | zero => exact ⟨p, rfl, rfl, h⟩
  | succ k ih =>
    obtain ⟨q, hcalls, hloops, hturn⟩ := ih
    obtain ⟨loop, r, hnext, hloop, hloops', hturn'⟩ := hturn.getNextLoop
    rw [hloops] at hloop
    refine ⟨r, ?_, hloops'.trans hloops, hturn'⟩
    rw [calls_succ hcalls hnext, served_succ hloop]

lemma getNextLoop_of_nil (h : p.loops_ = []) : getNextLoop p = .ok (p.baseLoop_, p) := by
  rw [getNextLoop, if_pos (by simp [h])]

lemma calls_of_nil (h : p.loops_ = []) (k : ℕ) :
    calls p k = .ok (List.replicate k p.baseLoop_, p) := by
  induction k with
  | zero => rfl
  | succ k ih =>
    rw [calls_succ ih (getNextLoop_of_nil h), List.replicate_succ']

/-- A pool that has been started stands in front of its first turn. -/
lemma atTurn_started (h : (started baseLoop numThread).loops_ ≠ []) :
    AtTurn (started baseLoop numThread) 0 where
  ne_nil := h
  length_le := length_started_le
  next_ := by simp [started_eq]

/-- The calls on a pool that has been started. -/
lemma calls_started (baseLoop : LoopId) (numThread : IntType.int.Val) (k : ℕ) : ∃ returned q,
    calls (started baseLoop numThread) k = .ok (returned, q) ∧ returned.length = k ∧
      ((started baseLoop numThread).loops_ = [] →
        returned = List.replicate k baseLoop ∧ q = started baseLoop numThread) ∧
      ((started baseLoop numThread).loops_ ≠ [] →
        returned = served (started baseLoop numThread).loops_ k ∧ AtTurn q k ∧
          q.loops_ = (started baseLoop numThread).loops_) := by
  by_cases hnil : (started baseLoop numThread).loops_ = []
  · refine ⟨_, _, calls_of_nil hnil k, by simp, fun _ => ⟨?_, rfl⟩, absurd hnil⟩
    rw [started_eq]
  · obtain ⟨q, hcalls, hloops, hturn⟩ := (atTurn_started hnil).calls k
    exact ⟨_, q, hcalls, length_served hnil k, fun h => absurd h hnil, fun _ => ⟨rfl, hturn, hloops⟩⟩

/-- Every call returns the main loop or the loop of a thread. -/
lemma getNextLoop_of_calls {returned : List LoopId}
    (h : calls (started baseLoop numThread) k = .ok (returned, q)) :
    ∃ loop r, getNextLoop q = .ok (loop, r) ∧
      (loop = baseLoop ∨ ∃ t < numThread.val.toNat, loop = startLoop t) := by
  obtain ⟨_, _, hcalls, -, hnil, hturn⟩ := calls_started baseLoop numThread k
  rw [h] at hcalls
  cases hcalls
  by_cases hloops : (started baseLoop numThread).loops_ = []
  · obtain ⟨-, rfl⟩ := hnil hloops
    refine ⟨_, _, getNextLoop_of_nil hloops, .inl ?_⟩
    rw [started_eq]
  · obtain ⟨-, hat, hq⟩ := hturn hloops
    obtain ⟨loop, r, hnext, hloop, -⟩ := hat.getNextLoop
    refine ⟨loop, r, hnext, .inr ?_⟩
    have hmem := List.mem_of_getElem? hloop
    rw [hq, loops_started, List.mem_map] at hmem
    obtain ⟨t, ht, rfl⟩ := hmem
    exact ⟨t, List.mem_range.mp ht, rfl⟩

/-! ### Fairness -/

/-- The calls so far returned the loops `ls` of the pool in turn. -/
structure Fair (ls : List LoopId) (returned : List LoopId) : Prop where
  inTurn : ∀ k < returned.length, returned[k]? = ls[k % ls.length]?
  window : ∀ start, start + ls.length ≤ returned.length → ∀ loop ∈ ls,
    ((returned.drop start).take ls.length).count loop = 1
  balanced : ∀ loop ∈ ls, ∀ loop' ∈ ls, returned.count loop ≤ returned.count loop' + 1

lemma fair_served {ls : List LoopId} (hls : ls ≠ []) (hnodup : ls.Nodup) (k : ℕ) :
    Fair ls (served ls k) where
  inTurn := by
    intro i hi
    rw [length_served hls] at hi
    exact getElem?_served hls hi
  window := by
    intro start hstart loop hloop
    rw [length_served hls] at hstart
    rw [window_served hls hstart, (ls.rotate_perm start).count_eq,
      List.count_eq_one_of_mem hnodup hloop]
  balanced := fun _ hloop _ hloop' => count_served_le hnodup hloop hloop' k

end ClwServer.EventLoopThreadPool
