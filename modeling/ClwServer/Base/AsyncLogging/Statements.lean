import ClwServer.Core.Sections
import ClwServer.Base.AsyncLogging.Invariant

/-!
# `AsyncLogging`, statement by statement

The sections under `mutex_` that `AsyncLogging.system` takes as one step each: `append` of any
thread, and the block at the beginning of a round of `threadFunc`, in two sections if it sleeps
in `timedwait`. Here they are the statements of the source, and between two of them the others
go on: the backend outside of its block, `start`, and the destructor, which does not take the
mutex. A pointer that was moved from is null until it is set again.
-/

namespace ClwServer.AsyncLogging

open Cpp

/-! ### The statements -/

/-- Where a call of `append` is that has the mutex. -/
inductive AppendPoint
  /-- At `if (currentBuffer_->avail() > len)`. -/
  | test
  /-- At the `currentBuffer_->append` of the first branch. -/
  | store
  /-- At `buffers_.push_back(std::move(currentBuffer_))`. -/
  | pushBack
  /-- At `if (nextBuffer_)`. -/
  | testNext
  /-- At `currentBuffer_ = std::move(nextBuffer_)`. -/
  | takeNext
  /-- At `currentBuffer_.reset(new Buffer)`. -/
  | newBuffer
  /-- At the `currentBuffer_->append` of the second branch. -/
  | storeNew
  /-- At `cond_.signal()`. -/
  | signal
  deriving DecidableEq

/-- Where the backend is in the block at the beginning of a round. -/
inductive RoundPoint
  /-- At `if (buffers_.empty())`. -/
  | test
  /-- At `cond_.timedwait(flushInteval_)`. -/
  | timedwait
  /-- At `buffers_.push_back(std::move(currentBuffer_))`. -/
  | pushBack
  /-- At `currentBuffer_ = std::move(newBuffer1)`. -/
  | takeNew1
  /-- At `buffersToWrite.swap(buffers_)`. -/
  | swap
  /-- At `if (!nextBuffer_)`. -/
  | testNext
  /-- At `nextBuffer_ = std::move(newBuffer2)`. -/
  | takeNew2
  /-- At the end of the block. -/
  | unlock
  deriving DecidableEq

inductive Point
  | append (tid : ℕ) (logline : List Byte) (p : AppendPoint)
  | threadFunc (p : RoundPoint)
  deriving DecidableEq

inductive Thread
  | frontEnd (tid : ℕ)
  | backend
  /-- The thread that calls `start` and the destructor. -/
  | owner
  deriving DecidableEq

/-- `currentBuffer_->append(logline, len)` -/
def storeCurrent (s : State) (logline : List Byte) : Except Fault State := do
  let cur ← deref s.currentBuffer
  let cur ← cur.append logline
  .ok { s with currentBuffer := some cur }

/-- `buffers_.push_back(std::move(currentBuffer_))` -/
def pushCurrent (s : State) : State :=
  { s with buffers := s.buffers ++ [s.currentBuffer], currentBuffer := none }

/-- A statement of `append`; behind the last one of a branch the guard gives the mutex back. -/
def appendStatement (tid : ℕ) (logline : List Byte) (s : State) :
    AppendPoint → Except Fault (State × (AppendPoint ⊕ List Obs))
  | .test => do
    let cur ← deref s.currentBuffer
    .ok (s, .inl (if logline.length < cur.avail then .store else .pushBack))
  | .store => do
    let s ← storeCurrent s logline
    .ok (s, .inr [.appended tid logline])
  | .pushBack => .ok (pushCurrent s, .inl .testNext)
  | .testNext => .ok (s, .inl (if s.nextBuffer.isSome then .takeNext else .newBuffer))
  | .takeNext => .ok ({ s with currentBuffer := s.nextBuffer, nextBuffer := none }, .inl .storeNew)
  | .newBuffer => .ok ({ s with currentBuffer := some .empty }, .inl .storeNew)
  | .storeNew => do
    let s ← storeCurrent s logline
    .ok (s, .inl .signal)
  | .signal => .ok (s, .inr [.appended tid logline])

/-- A statement of the block in `threadFunc`; `timedwait` gives the mutex back, and so does the
end of the block. -/
def roundStatement (s : State) : RoundPoint → State × (RoundPoint ⊕ List Obs)
  | .test => (s, .inl (if s.buffers.isEmpty then .timedwait else .pushBack))
  | .timedwait => ({ s with pc := .waiting }, .inr [])
  | .pushBack => (pushCurrent s, .inl .takeNew1)
  | .takeNew1 => ({ s with currentBuffer := s.newBuffer1, newBuffer1 := none }, .inl .swap)
  | .swap => ({ s with buffersToWrite := s.buffers, buffers := s.buffersToWrite }, .inl .testNext)
  | .testNext => (s, .inl (if s.nextBuffer.isSome then .unlock else .takeNew2))
  | .takeNew2 => ({ s with nextBuffer := s.newBuffer2, newBuffer2 := none }, .inl .unlock)
  | .unlock => ({ s with pc := .drop }, .inr [])

/-- The sections of one `AsyncLogging`, and what its threads do without `mutex_`. -/
def sections : Sections Thread State Event Point Fault Obs where
  init := init
  thread
    | .append tid _ => .frontEnd tid
    | .backend | .wake => .backend
    | .start | .clear => .owner
  owner
    | .append tid _ _ => .frontEnd tid
    | .threadFunc _ => .backend
  enter s
    | .append tid logline =>
      if logline.length < kLargeBuffer then some (.append tid logline .test) else none
    | .backend => if s.pc = .lock then some (.threadFunc .test) else none
    | .wake => if s.pc = .waiting then some (.threadFunc .pushBack) else none
    | .start | .clear => none
  statement m s :=
    match m with
    | .append tid logline p =>
      (appendStatement tid logline s p).map fun r => (r.1, r.2.map (.append tid logline) id)
    | .threadFunc p => .ok ((roundStatement s p).1, (roundStatement s p).2.map .threadFunc id)
  free s e :=
    match e with
    | .append _ _ | .wake => none
    | .backend => if s.pc = .lock then none else threadFunc s
    | .start | .clear => exec s e

/-! ### Who touches what -/

/-- What only the holder of the mutex touches. -/
structure Guarded where
  currentBuffer : BufferPtr
  nextBuffer : BufferPtr
  buffers : List BufferPtr

def State.guarded (s : State) : Guarded := ⟨s.currentBuffer, s.nextBuffer, s.buffers⟩

def State.setGuarded (s : State) (g : Guarded) : State :=
  { s with currentBuffer := g.currentBuffer, nextBuffer := g.nextBuffer, buffers := g.buffers }

@[simp] lemma setGuarded_guarded (s : State) : s.setGuarded s.guarded = s := rfl

/-- Without the mutex no thread reads or changes what is guarded by it. -/
lemma free_setGuarded (s : State) (g : Guarded) (e : Event) :
    sections.free (s.setGuarded g) e =
      (sections.free s e).map fun r => r.map fun (t, o) => (t.setGuarded g, o) := by
  cases e with
  | append tid logline => rfl
  | wake => rfl
  | start =>
    simp only [sections, exec, State.setGuarded]
    split <;> rfl
  | clear =>
    simp only [sections, exec, State.setGuarded]
    split <;> rfl
  | backend =>
    simp only [sections, threadFunc, State.setGuarded]
    cases hpc : s.pc with
    | drop =>
      by_cases hlen : 25 < s.buffersToWrite.length <;> simp [AsyncLogging.drop, hlen, Except.map]
    | write i =>
      rcases hget : s.buffersToWrite[i]? with _ | _ | b <;> simp [hget, deref, Except.map]
    | refill1 =>
      rcases refill s.newBuffer1 s.buffersToWrite with f | ⟨p, rest⟩ <;> simp [Except.map]
    | refill2 =>
      rcases refill s.newBuffer2 s.buffersToWrite with f | ⟨p, rest⟩ <;> simp [Except.map]
    | notStarted | entry | head | lock | waiting | resize | flush | lastFlush | done => rfl

/-- A step without the mutex leaves what is guarded by it. -/
lemma free_guarded {s t : State} {e : Event} {o : List Obs}
    (h : sections.free s e = some (.ok (t, o))) : t.guarded = s.guarded := by
  have hframe := free_setGuarded s s.guarded e
  rw [setGuarded_guarded, h] at hframe
  simp only [Option.map_some, Except.map, Option.some.injEq, Except.ok.injEq, Prod.mk.injEq,
    and_true] at hframe
  rw [hframe]
  rfl

/-- A statement of `append` reads and changes nothing else. -/
lemma appendStatement_setGuarded (s v : State) (tid : ℕ) (logline : List Byte)
    (p : AppendPoint) :
    appendStatement tid logline (v.setGuarded s.guarded) p =
      (appendStatement tid logline s p).map fun (t, r) => (v.setGuarded t.guarded, r) := by
  have hstore : storeCurrent (v.setGuarded s.guarded) logline =
      (storeCurrent s logline).map fun t => v.setGuarded t.guarded := by
    simp only [storeCurrent, State.setGuarded, State.guarded]
    cases s.currentBuffer with
    | none => rfl
    | some cur =>
      simp only [deref_some, ok_bind]
      cases cur.append logline <;> rfl
  cases p with
  | test =>
    simp only [appendStatement, State.setGuarded, State.guarded]
    rcases hcur : s.currentBuffer with _ | cur
    · rfl
    · simp only [deref_some, ok_bind, Except.map, hcur]
  | store =>
    simp only [appendStatement, hstore]
    cases storeCurrent s logline <;> rfl
  | storeNew =>
    simp only [appendStatement, hstore]
    cases storeCurrent s logline <;> rfl
  | pushBack | testNext | takeNext | newBuffer | signal => rfl

/-- The members that `start` and the destructor set, and the program counter of the backend. -/
def State.setControl (s : State) (running : Bool) (pc : Pc) (closing : Bool) : State :=
  { s with running := running, pc := pc, closing := closing }

/-- Up to its end a statement of the block has nothing to do with them. -/
lemma roundStatement_setControl {s t : State} {p n : RoundPoint}
    (h : roundStatement s p = (t, .inl n)) :
    t.setControl s.running s.pc s.closing = t ∧ ∀ running pc closing,
      roundStatement (s.setControl running pc closing) p =
        (t.setControl running pc closing, .inl n) := by
  cases p <;> cases h <;> exact ⟨rfl, fun _ _ _ => rfl⟩

/-- `start` and the destructor do nothing else, and ask for nothing else. -/
lemma free_setControl {s : State} {e : Event} {r : Except Fault (State × List Obs)}
    (hthread : sections.thread e ≠ .backend) (h : sections.free s e = some r) :
    ∃ running pc closing, r = .ok (s.setControl running pc closing, []) ∧
      (s.pc = .notStarted ∨ pc = s.pc) ∧ ∀ t : State, t.pc = s.pc → t.closing = s.closing →
        sections.free t e = some (.ok (t.setControl running pc closing, [])) := by
  cases e with
  | append tid logline => cases h
  | backend => exact absurd rfl hthread
  | wake => cases h
  | start =>
    simp only [sections, exec] at h
    split at h
    · rename_i hstart
      refine ⟨true, .entry, s.closing, (Option.some.inj h).symm, .inl hstart.1,
        fun t hpc hclosing => ?_⟩
      simp only [sections, exec, hpc, hclosing, if_pos hstart]
      rw [← hclosing]
      rfl
    · cases h
  | clear =>
    simp only [sections, exec] at h
    split at h
    · rename_i hclear
      refine ⟨false, s.pc, true, (Option.some.inj h).symm, .inr rfl, fun t hpc hclosing => ?_⟩
      simp only [sections, exec, hclosing, if_pos hclear]
      rw [← hpc]
      rfl
    · cases h

/-! ### The other threads' steps can be taken in front of the section -/

lemma enter_free {e e' : Event} {m : Point} {s t : State} {o : List Obs}
    (h : sections.enter s e = some m) (hthread : sections.thread e' ≠ sections.owner m)
    (he : sections.free s e' = some (.ok (t, o))) : sections.enter t e = some m := by
  -- the block begins at `lock` or in `timedwait`, where `start` cannot be called any more
  have hpc {pc} (howner : sections.owner m = .backend) (hs : s.pc = pc)
      (hpc : pc ≠ .notStarted) : t.pc = pc := by
    rw [howner] at hthread
    obtain ⟨_, _, _, heq, hpcs, -⟩ := free_setControl hthread he
    cases heq
    rcases hpcs with hnot | rfl
    · exact absurd (hs.symm.trans hnot) hpc
    · exact hs
  cases e with
  | append tid logline => exact h
  | start => cases h
  | clear => cases h
  | backend =>
    simp only [sections] at h ⊢
    split at h
    · rename_i hlock
      cases h
      rw [if_pos (hpc rfl hlock (by decide))]
    · cases h
  | wake =>
    simp only [sections] at h ⊢
    split at h
    · rename_i hwaiting
      cases h
      rw [if_pos (hpc rfl hwaiting (by decide))]
    · cases h

/-- A statement of `append` and a step without the mutex touch nothing in common. -/
lemma append_free {tid : ℕ} {logline : List Byte} {p : AppendPoint} {s t : State}
    {x : AppendPoint ⊕ List Obs} {e : Event} {r : Except Fault (State × List Obs)}
    (h : appendStatement tid logline s p = .ok (t, x)) (he : sections.free t e = some r) :
    ∃ r', sections.free s e = some r' ∧ (∀ f, r = .error f → r' = .error f) ∧
      ∀ u o, r = .ok (u, o) → ∃ v, r' = .ok (v, o) ∧
        appendStatement tid logline v p = .ok (u, x) := by
  have hframe := appendStatement_setGuarded s s tid logline p
  rw [setGuarded_guarded, h] at hframe
  have ht : t = s.setGuarded t.guarded := congrArg Prod.fst (Except.ok.inj hframe)
  rw [ht, free_setGuarded] at he
  obtain ⟨r', hr', rfl⟩ := Option.map_eq_some_iff.mp he
  refine ⟨r', hr', ?_, ?_⟩
  · rintro f hf
    rcases r' with f' | ⟨v, o⟩ <;> cases hf
    rfl
  · rintro u o hu
    rcases r' with f' | ⟨v, o'⟩ <;> cases hu
    refine ⟨v, rfl, ?_⟩
    have hv := appendStatement_setGuarded s v tid logline p
    rw [← free_guarded hr', setGuarded_guarded, h] at hv
    exact hv

lemma movable : sections.Movable where
  owner {m n s t} h := by
    cases m with
    | append tid logline p =>
      simp only [sections] at h
      rcases happ : appendStatement tid logline s p with f | ⟨u, k | o⟩ <;> rw [happ] at h <;>
        cases h
      rfl
    | threadFunc p =>
      simp only [sections] at h
      rcases hround : (roundStatement s p).2 with k | o <;> rw [hround] at h <;> cases h
      rfl
  enter := enter_free
  step {e m n s t u o} h hthread he := by
    cases m with
    | append tid logline p =>
      simp only [sections] at h ⊢
      rcases happ : appendStatement tid logline s p with f | ⟨u', k | o⟩ <;> rw [happ] at h <;>
        cases h
      obtain ⟨r', hr', -, hok⟩ := append_free happ he
      obtain ⟨v, rfl, hv⟩ := hok _ _ rfl
      refine ⟨v, hr', ?_⟩
      rw [hv]
      rfl
    | threadFunc p =>
      simp only [sections] at h ⊢
      rcases hround : roundStatement s p with ⟨w, k | o⟩ <;> rw [hround] at h <;> cases h
      obtain ⟨hkeeps, hcontrol⟩ := roundStatement_setControl hround
      obtain ⟨running, pc, closing, heq, -, hother⟩ := free_setControl hthread he
      cases heq
      have hpc : s.pc = w.pc := by rw [← hkeeps]; rfl
      have hclosing : s.closing = w.closing := by rw [← hkeeps]; rfl
      refine ⟨s.setControl running pc closing, hother s hpc hclosing, ?_⟩
      rw [hcontrol]
      rfl
  fault {e m n s t f} h hthread he := by
    cases m with
    | append tid logline p =>
      simp only [sections] at h
      rcases happ : appendStatement tid logline s p with f' | ⟨u', k | o⟩ <;> rw [happ] at h <;>
        cases h
      obtain ⟨r', hr', herror, -⟩ := append_free happ he
      rw [hr', herror f rfl]
    | threadFunc p =>
      obtain ⟨_, _, _, heq, -⟩ := free_setControl hthread he
      cases heq

/-! ### The sections do what the steps of the system do -/

section Completes

variable {tid : ℕ} {logline : List Byte} {s t : State} {o : List Obs}
  {r : Except Fault (State × List Obs)}

lemma completes_append_next {p n : AppendPoint}
    (h : appendStatement tid logline s p = .ok (t, .inl n))
    (hrest : sections.Completes (.append tid logline n) t r) :
    sections.Completes (.append tid logline p) s r :=
  .next (by simp only [sections, h]; rfl) hrest

lemma completes_append_unlock {p : AppendPoint}
    (h : appendStatement tid logline s p = .ok (t, .inr o)) :
    sections.Completes (.append tid logline p) s (.ok (t, o)) :=
  .unlock (by simp only [sections, h]; rfl)

lemma completes_append_fault {p : AppendPoint} {f : Fault}
    (h : appendStatement tid logline s p = .error f) :
    sections.Completes (.append tid logline p) s (.error f) :=
  .fault (by simp only [sections, h]; rfl)

lemma completes_round_next {p n : RoundPoint} (h : roundStatement s p = (t, .inl n))
    (hrest : sections.Completes (.threadFunc n) t r) : sections.Completes (.threadFunc p) s r :=
  .next (by simp only [sections, h]; rfl) hrest

lemma completes_round_unlock {p : RoundPoint} (h : roundStatement s p = (t, .inr o)) :
    sections.Completes (.threadFunc p) s (.ok (t, o)) :=
  .unlock (by simp only [sections, h]; rfl)

end Completes

/-- The second branch of `append`, behind the choice of the new current buffer. -/
lemma completes_storeNew (tid : ℕ) (logline : List Byte) (s : State) :
    sections.Completes (.append tid logline .storeNew) s
      ((storeCurrent s logline).map fun t => (t, [.appended tid logline])) := by
  rcases hstore : storeCurrent s logline with f | t
  · exact completes_append_fault (by simp only [appendStatement, hstore]; rfl)
  · refine completes_append_next (by simp only [appendStatement, hstore, ok_bind]; rfl) ?_
    exact completes_append_unlock rfl

lemma completes_testNext (tid : ℕ) (logline : List Byte) (s : State) :
    sections.Completes (.append tid logline .testNext) s
      ((storeCurrent (takeNext s) logline).map fun t => (t, [.appended tid logline])) := by
  rcases Option.eq_none_or_eq_some s.nextBuffer with hnext | ⟨next, hnext⟩
  · have htake : takeNext s = { s with currentBuffer := some .empty } := by
      simp only [takeNext, hnext]
    refine completes_append_next (t := s) (n := .newBuffer)
      (by simp only [appendStatement, hnext]; rfl) ?_
    rw [htake]
    exact completes_append_next rfl (completes_storeNew tid logline _)
  · have htake : takeNext s = { s with currentBuffer := s.nextBuffer, nextBuffer := none } := by
      simp only [takeNext, hnext]
    refine completes_append_next (t := s) (n := .takeNext)
      (by simp only [appendStatement, hnext]; rfl) ?_
    rw [htake]
    exact completes_append_next rfl (completes_storeNew tid logline _)

/-- The current buffer that was moved from is set before it is used. -/
lemma takeNext_pushCurrent (s : State) :
    takeNext (pushCurrent s) = takeNext { s with buffers := s.buffers ++ [s.currentBuffer] } := by
  simp only [takeNext, pushCurrent]

lemma completes_append (tid : ℕ) (logline : List Byte) (s : State) :
    sections.Completes (.append tid logline .test) s
      ((append s logline).map fun t => (t, [.appended tid logline])) := by
  rcases hcur : s.currentBuffer with _ | cur
  · simp only [append, hcur]
    exact completes_append_fault (by simp only [appendStatement, hcur]; rfl)
  by_cases havail : (logline.length : ℤ) < cur.avail
  · refine completes_append_next (t := s) (n := .store)
      (by simp only [appendStatement, hcur, deref_some, ok_bind, if_pos havail]) ?_
    have happend : append s logline = storeCurrent s logline := by
      simp only [append, storeCurrent, hcur, deref_some, ok_bind, if_pos havail]
    rw [happend]
    rcases hstore : storeCurrent s logline with f | t
    · exact completes_append_fault (by simp only [appendStatement, hstore]; rfl)
    · exact completes_append_unlock (by simp only [appendStatement, hstore, ok_bind])
  · refine completes_append_next (t := s) (n := .pushBack)
      (by simp only [appendStatement, hcur, deref_some, ok_bind, if_neg havail]) ?_
    refine completes_append_next (t := pushCurrent s) (n := .testNext) rfl ?_
    have happend : append s logline =
        storeCurrent (takeNext { s with buffers := s.buffers ++ [s.currentBuffer] }) logline := by
      simp only [append, storeCurrent, hcur, deref_some, ok_bind, if_neg havail]
    rw [happend]
    rw [← takeNext_pushCurrent]
    exact completes_testNext tid logline _

lemma completes_swap (s : State) :
    sections.Completes (.threadFunc .pushBack) s (.ok ({ swap s with pc := .drop }, [])) := by
  refine completes_round_next rfl (completes_round_next rfl (completes_round_next rfl ?_))
  rcases Option.eq_none_or_eq_some s.nextBuffer with hnext | ⟨next, hnext⟩
  · have hswap : swap s = { s with
        currentBuffer := s.newBuffer1, newBuffer1 := none, nextBuffer := s.newBuffer2,
        newBuffer2 := none, buffersToWrite := s.buffers ++ [s.currentBuffer],
        buffers := s.buffersToWrite } := by
      simp only [swap, hnext]
    rw [hswap]
    refine completes_round_next (n := .takeNew2)
      (Prod.ext rfl (by simp only [roundStatement, pushCurrent, hnext]; rfl)) ?_
    exact completes_round_next rfl (completes_round_unlock rfl)
  · have hswap : swap s = { s with
        currentBuffer := s.newBuffer1, newBuffer1 := none,
        buffersToWrite := s.buffers ++ [s.currentBuffer], buffers := s.buffersToWrite } := by
      simp only [swap, hnext]
    rw [hswap]
    refine completes_round_next (n := .unlock)
      (Prod.ext rfl (by simp only [roundStatement, pushCurrent, hnext]; rfl)) ?_
    exact completes_round_unlock rfl

lemma atomic : sections.Atomic exec := by
  refine .of_completes ?_ ?_
  · intro s e m h
    cases e with
    | append tid logline =>
      simp only [sections] at h
      split at h
      · rename_i hlen
        cases h
        exact ⟨rfl, _, by simp only [exec, if_pos hlen], completes_append tid logline s⟩
      · cases h
    | start => cases h
    | clear => cases h
    | backend =>
      simp only [sections] at h
      split at h
      · rename_i hlock
        cases h
        refine ⟨by simp only [sections, if_pos hlock], ?_⟩
        by_cases hempty : s.buffers.isEmpty
        · refine ⟨_, by simp only [exec, threadFunc, hlock, if_pos hempty]; rfl, ?_⟩
          refine completes_round_next (t := s) (n := .timedwait)
            (by simp only [roundStatement, if_pos hempty]) ?_
          exact completes_round_unlock rfl
        · refine ⟨_, by simp only [exec, threadFunc, hlock, if_neg hempty]; rfl, ?_⟩
          refine completes_round_next (t := s) (n := .pushBack)
            (by simp only [roundStatement, if_neg hempty]) ?_
          exact completes_swap s
      · cases h
    | wake =>
      simp only [sections] at h
      split at h
      · rename_i hwaiting
        cases h
        exact ⟨rfl, _, by simp only [exec, if_pos hwaiting], completes_swap s⟩
      · cases h
  · intro s e h
    cases e with
    | append tid logline =>
      simp only [sections] at h
      split at h
      · cases h
      · rename_i hlen
        simp only [exec, sections, if_neg hlen]
    | start => rfl
    | clear => rfl
    | backend =>
      simp only [sections] at h
      split at h
      · cases h
      · rename_i hlock
        simp only [exec, sections, if_neg hlock]
    | wake =>
      simp only [sections] at h
      split at h
      · cases h
      · rename_i hwaiting
        simp only [exec, sections, if_neg hwaiting]

/-! ### Runs, statement by statement -/

/-- The steps of the system never fault, so its runs are those of the calls that may. -/
lemma run_faulting_iff {obs : List Obs} {s : State} :
    (System.faulting init exec).Run obs (.ok s) ↔ system.Run obs s := by
  constructor
  · intro h
    exact h.of_faulting fun _ _ _ _ he => step_eq_some.mpr he
  · intro h
    refine h.invariant (P := fun obs s => (System.faulting init exec).Run obs (.ok s)) .init ?_
    intro obs s e t o _ hr he
    exact hr.step (System.faulting_step_ok.mpr (step_eq_some.mp he))

lemma run_faulting_ne_error {obs : List Obs} {f : Fault} :
    ¬(System.faulting init exec).Run obs (.error f) := by
  intro h
  refine h.invariant (P := fun _ r => ∀ f, r ≠ .error f) (by simp [System.faulting]) ?_ f rfl
  rintro obs (_ | s) e r o hr - he f rfl
  · cases he
  · have hi := inv_of_reachable (run_faulting_iff.mp hr).reachable
    obtain ⟨_, _, heq, -⟩ := exec_spec hi (System.faulting_step_error.mp he).1
    cases heq

/-- Statement by statement, in any interleaving: no statement is undefined, in a section or
outside; where no section is open, state and observations are those of a run of `system`; and
while one is open, the others have only done what they could have done in front of it. -/
theorem run_statements_iff {obs : List Obs} :
    (∀ f, ¬sections.system.Run obs (.error f)) ∧
    (∀ s, sections.system.Run obs (.ok ⟨s, none⟩) ↔ system.Run obs s) ∧
    ∀ s p, sections.system.Run obs (.ok ⟨s, some p⟩) →
      ∃ a e m, system.Run obs a ∧ sections.enter a e = some m ∧ sections.Leads m a p s := by
  refine ⟨fun f h => ?_, fun s => ?_, fun s p h => ?_⟩
  · exact run_faulting_ne_error ((Sections.run_error_iff movable atomic).mp h)
  · exact (Sections.run_ok_iff movable atomic).trans run_faulting_iff
  · obtain ⟨a, ha, e, m, hm, hleads⟩ := Sections.exists_atomic_run movable atomic h
    exact ⟨a, e, m, run_faulting_iff.mp ha, hm, hleads⟩

end ClwServer.AsyncLogging
