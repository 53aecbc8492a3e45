import Mathlib.Data.List.Basic
import ClwServer.Core.System

/-!
# `Thread`

`Thread.cc`. One thread owns the object: it calls `start` and `join`, and at last the destructor.
Every `start` that succeeds makes a kernel thread, which uses the object when it begins to run,
however late that is. The object itself has room for one thread only.
-/

namespace ClwServer.Thread

/-! ### The object and its threads -/

inductive Fault
  /-- `pthread_join` or `pthread_detach` for what is no joinable thread. -/
  | badId
  /-- A kernel thread uses the destroyed object. -/
  | destroyed
  deriving DecidableEq

/-- A `pthread_t`. -/
inductive PthreadId
  | zero
  /-- What a `pthread_create` that has failed leaves. -/
  | undefined
  | thread (i : ℕ)
  deriving DecidableEq

/-- Where a kernel thread is. -/
inductive Phase
  /-- At `tid_ = CurrentThread::getpid()`. -/
  | begin
  /-- At `if (ThreadFuncCallback_)`. -/
  | test
  | callback
  | terminated
  deriving DecidableEq

inductive Reaping
  | joinable
  | joined
  | detached
  deriving DecidableEq

structure Child where
  gettid : ℕ
  phase : Phase
  reaping : Reaping
  deriving DecidableEq

/-- Nothing is left of the thread. -/
def Child.Gone (c : Child) : Prop := c.phase = .terminated ∧ c.reaping = .joined

/-- A call of the owner. -/
inductive Call
  /-- `pthread_create` makes a thread with this id, or fails. -/
  | start (answer : Option ℕ)
  | join
  deriving DecidableEq

structure State where
  /-- `ThreadFuncCallback_` is not empty. -/
  callback : Bool
  started_ : Bool
  joined_ : Bool
  pthreadId_ : PthreadId
  tid_ : ℕ
  /-- The destructor has not run. -/
  alive : Bool
  /-- The kernel threads, in the order of their creation. -/
  children : List Child
  /-- The calls of the owner in front of the destructor. -/
  todo : List Call
  deriving DecidableEq

/-- The constructor. -/
def init (callback : Bool) (calls : List Call) : State :=
  ⟨callback, false, false, .zero, 0, true, [], calls⟩

/-- The joinable thread of an id. -/
def joinable (s : State) : Except Fault (ℕ × Child) :=
  match s.pthreadId_ with
  | .thread i =>
    match s.children[i]? with
    | some c => if c.reaping = .joinable then .ok (i, c) else .error .badId
    | none => .error .badId
  | .zero | .undefined => .error .badId

def setChild (s : State) (i : ℕ) (c : Child) : State := { s with children := s.children.set i c }

/-- `start` -/
def start (s : State) : Option ℕ → State
  | some gettid =>
    { s with started_ := true
             pthreadId_ := .thread s.children.length
             children := s.children ++ [⟨gettid, .begin, .joinable⟩] }
  | none => { s with started_ := false, pthreadId_ := .undefined }

/-- `join`, which returns when the thread has terminated. -/
def join (s : State) : Option (Except Fault State) :=
  match joinable s with
  | .error f => some (.error f)
  | .ok (i, c) =>
    if c.phase = .terminated then
      some (.ok (setChild { s with joined_ := true } i { c with reaping := .joined }))
    else
      none

/-- `~Thread` -/
def destroy (s : State) : Except Fault State :=
  if s.started_ = true ∧ s.joined_ = false then
    (joinable s).map fun (i, c) =>
      setChild { s with alive := false } i { c with reaping := .detached }
  else
    .ok { s with alive := false }

/-- The next step of a kernel thread, in `startThread` and `runInThread`. -/
def runInThread (s : State) (i : ℕ) (c : Child) : Option (Except Fault State) :=
  match c.phase with
  | .begin =>
    if s.alive then
      some (.ok (setChild { s with tid_ := c.gettid } i { c with phase := .test }))
    else
      some (.error .destroyed)
  | .test =>
    if s.alive then
      some (.ok (setChild s i { c with phase := if s.callback then .callback else .terminated }))
    else
      some (.error .destroyed)
  | .callback => some (.ok (setChild s i { c with phase := .terminated }))
  | .terminated => none

inductive Event
  /-- The owner makes its next call. -/
  | owner
  | child (i : ℕ)
  deriving DecidableEq

def call (s : State) : Event → Option (Except Fault State)
  | .owner =>
    if s.alive then
      match s.todo with
      | [] => some (destroy s)
      | .start answer :: todo => some (.ok (start { s with todo := todo } answer))
      | .join :: todo => join { s with todo := todo }
    else
      none
  | .child i => s.children[i]?.bind (runInThread s i)

/-- A `Thread`, its owner, and the kernel threads. -/
def system (callback : Bool) (calls : List Call) : System (Except Fault State) Event Empty :=
  .faulting (init callback calls) fun s e => (call s e).map fun r => r.map fun t => (t, [])

/-! ### The owners that are safe -/

/-- Each `start` that succeeds is followed by `join`, and nothing else is joined. -/
def Paired : List Call → Prop
  | [] => True
  | .start none :: calls => Paired calls
  | .start (some _) :: .join :: calls => Paired calls
  | .start (some _) :: [] | .start (some _) :: .start _ :: _ | .join :: _ => False

instance decidablePaired : (calls : List Call) → Decidable (Paired calls)
  | [] => isTrue trivial
  | .start none :: calls => decidablePaired calls
  | .start (some _) :: .join :: calls => decidablePaired calls
  | .start (some _) :: [] | .start (some _) :: .start _ :: _ | .join :: _ => isFalse id

variable {callback : Bool} {calls : List Call} {s t : State} {e : Event} {i j : ℕ} {c d : Child}
  {f : Fault}

lemma eq_nil (o : List Empty) : o = [] := List.eq_nil_iff_forall_not_mem.mpr fun x => x.elim

lemma step_ok {o : List Empty} : (system callback calls).step (.ok s) e = some (.ok t, o) ↔
    call s e = some (.ok t) := by
  rw [system, System.faulting_step_ok, eq_nil o, Option.map_eq_some_iff]
  constructor
  · rintro ⟨r, hr, heq⟩
    cases r <;> cases heq
    exact hr
  · intro h
    exact ⟨_, h, rfl⟩

lemma step_error {o : List Empty} : (system callback calls).step (.ok s) e = some (.error f, o) ↔
    call s e = some (.error f) := by
  rw [system, System.faulting_step_error, eq_nil o, Option.map_eq_some_iff]
  constructor
  · rintro ⟨⟨r, hr, heq⟩, -⟩
    cases r <;> cases heq
    exact hr
  · intro h
    exact ⟨⟨_, h, rfl⟩, rfl⟩

lemma joinable_eq (hid : s.pthreadId_ = .thread i) (hc : s.children[i]? = some c)
    (hjoinable : c.reaping = .joinable) : joinable s = .ok (i, c) := by
  simp only [joinable, hid, hc, if_pos hjoinable]

lemma joinable_eq_ok (h : joinable s = .ok (i, c)) :
    s.pthreadId_ = .thread i ∧ s.children[i]? = some c ∧ c.reaping = .joinable := by
  simp only [joinable] at h
  split at h
  · rename_i j hid
    split at h
    · rename_i c' hc
      split at h <;> cases h
      exact ⟨hid, hc, ‹_›⟩
    · cases h
  · cases h
  · cases h

/-! ### A paired owner -/

/-- A thread that is gone, or the one that the owner is about to join. -/
inductive Well (s : State) : Prop
  | clean (hgone : ∀ c ∈ s.children, c.Gone) (htodo : Paired s.todo)
      (hjoined : s.started_ = true → s.joined_ = true)
  | pending (i : ℕ) (c : Child) (todo : List Call) (halive : s.alive = true)
      (hid : s.pthreadId_ = .thread i) (hc : s.children[i]? = some c)
      (hjoinable : c.reaping = .joinable)
      (hgone : ∀ j d, s.children[j]? = some d → j ≠ i → d.Gone)
      (htodo : s.todo = .join :: todo) (hpaired : Paired todo)

lemma runInThread_gone (h : c.Gone) : runInThread s i c = none := by
  simp only [runInThread, h.1]

lemma Well.owner (h : Well s) {r : Except Fault State} (he : call s .owner = some r) :
    ∃ t, r = .ok t ∧ Well t := by
  simp only [call] at he
  split at he
  · rename_i halive
    cases h with
    | clean hgone htodo hjoined =>
      cases hs : s.todo with
      | nil =>
        rw [hs] at he htodo
        have hnot : ¬(s.started_ = true ∧ s.joined_ = false) := by
          rintro ⟨hstarted, hfalse⟩
          rw [hjoined hstarted] at hfalse
          cases hfalse
        simp only [destroy, if_neg hnot, Option.some.injEq] at he
        exact ⟨_, he.symm, .clean hgone (hs ▸ htodo) hjoined⟩
      | cons x todo =>
        rw [hs] at he htodo
        cases x with
        | start answer =>
          simp only [Option.some.injEq] at he
          refine ⟨_, he.symm, ?_⟩
          cases answer with
          | none => exact .clean hgone htodo (by simp [start])
          | some gettid =>
            -- a `join` has to follow
            match todo, htodo with
            | .join :: todo, htodo =>
              refine .pending s.children.length ⟨gettid, .begin, .joinable⟩ todo halive rfl
                List.getElem?_concat_length rfl (fun j d hj hne => ?_) rfl htodo
              change (s.children ++ [_])[j]? = some d at hj
              have hlt : j < s.children.length := by
                have hlen := (List.getElem?_eq_some_iff.mp hj).1
                rw [List.length_append, List.length_singleton] at hlen
                omega
              rw [List.getElem?_append_left hlt] at hj
              exact hgone d (List.mem_of_getElem? hj)
        | join => exact htodo.elim
    | pending i c todo _ hid hc hjoinable hgone htodo hpaired =>
      have heq : joinable { s with todo := todo } = .ok (i, c) := joinable_eq hid hc hjoinable
      simp only [htodo, join, heq] at he
      split at he
      · rename_i hphase
        cases he
        refine ⟨_, rfl, .clean (fun d hd => ?_) hpaired fun _ => rfl⟩
        obtain ⟨j, hj⟩ := List.mem_iff_getElem?.mp hd
        simp only [setChild, List.getElem?_set] at hj
        split at hj
        · split at hj <;> cases hj
          exact ⟨hphase, rfl⟩
        · exact hgone j d hj (Ne.symm ‹_›)
      · cases he
  · cases he

lemma Well.setChild (hid : s.pthreadId_ = .thread i) (halive : s.alive = true)
    (hc : s.children[i]? = some c) (hjoinable : c.reaping = .joinable)
    (hgone : ∀ j d, s.children[j]? = some d → j ≠ i → d.Gone) {todo : List Call}
    (htodo : s.todo = .join :: todo) (hpaired : Paired todo) (phase : Phase) :
    Well (setChild s i { c with phase := phase }) := by
  refine .pending i { c with phase := phase } todo halive hid ?_ hjoinable ?_ htodo hpaired
  · have hlt := (List.getElem?_eq_some_iff.mp hc).1
    exact List.getElem?_set_self hlt
  · intro j d hj hne
    simp only [Thread.setChild, List.getElem?_set_ne (Ne.symm hne)] at hj
    exact hgone j d hj hne

lemma Well.child (h : Well s) {r : Except Fault State} (he : call s (.child j) = some r) :
    ∃ t, r = .ok t ∧ Well t := by
  obtain ⟨d, hd, hrun⟩ := Option.bind_eq_some_iff.mp he
  cases h with
  | clean hgone htodo hjoined =>
    rw [runInThread_gone (hgone d (List.mem_of_getElem? hd))] at hrun
    cases hrun
  | pending i c todo halive hid hc hjoinable hgone htodo hpaired =>
    by_cases hj : j = i
    · subst hj
      obtain rfl : c = d := Option.some.inj (hc.symm.trans hd)
      have hnext (tid : ℕ) (phase : Phase) :
          Well (Thread.setChild { s with tid_ := tid } j { c with phase := phase }) :=
        .setChild (s := { s with tid_ := tid }) hid halive hc hjoinable hgone htodo hpaired phase
      cases hphase : c.phase with
      | begin =>
        simp only [runInThread, hphase, if_pos halive, Option.some.injEq] at hrun
        exact ⟨_, hrun.symm, hnext _ _⟩
      | test =>
        simp only [runInThread, hphase, if_pos halive, Option.some.injEq] at hrun
        exact ⟨_, hrun.symm, hnext s.tid_ _⟩
      | callback =>
        simp only [runInThread, hphase, Option.some.injEq] at hrun
        exact ⟨_, hrun.symm, hnext s.tid_ _⟩
      | terminated => simp only [runInThread, hphase, reduceCtorEq] at hrun
    · rw [runInThread_gone (hgone j d hd hj)] at hrun
      cases hrun

lemma well_of_run (hpaired : Paired calls) {obs : List Empty} {r : Except Fault State}
    (h : (system callback calls).Run obs r) : ∃ s, r = .ok s ∧ Well s := by
  refine h.invariant (P := fun _ r => ∃ s, r = .ok s ∧ Well s)
    ⟨_, rfl, .clean (by simp [init]) hpaired (by simp [init])⟩ ?_
  rintro obs _ e r o - ⟨s, rfl, hw⟩ he
  have hcall : ∃ r', call s e = some r' ∧ r = r' := by
    cases r with
    | ok t => exact ⟨_, step_ok.mp he, rfl⟩
    | error f => exact ⟨_, step_error.mp he, rfl⟩
  obtain ⟨_, hcall, rfl⟩ := hcall
  cases e with
  | owner => exact hw.owner hcall
  | child i => exact hw.child hcall

lemma Well.step (h : Well s) {r : Except Fault State} (he : call s e = some r) :
    ∃ t, r = .ok t ∧ Well t := by
  cases e with
  | owner => exact h.owner he
  | child i => exact h.child he

/-- As long as the object exists, its owner or the thread it waits for can go on. -/
lemma Well.progress (h : Well s) (halive : s.alive = true) : ∃ e t, call s e = some (.ok t) := by
  have henabled : ∃ e r, call s e = some r := by
    cases h with
    | clean hgone htodo hjoined =>
      refine ⟨.owner, ?_⟩
      simp only [call, if_pos halive]
      cases hs : s.todo with
      | nil => exact ⟨_, rfl⟩
      | cons x todo =>
        cases x with
        | start answer => exact ⟨_, rfl⟩
        | join =>
          rw [hs] at htodo
          exact htodo.elim
    | pending i c todo _ hid hc hjoinable hgone htodo hpaired =>
      have hchild : call s (.child i) = runInThread s i c := by
        simp only [call, hc, Option.bind_some]
      cases hphase : c.phase with
      | begin | test | callback =>
        refine ⟨.child i, ?_⟩
        rw [hchild]
        simp only [runInThread, hphase, if_pos halive]
        exact ⟨_, rfl⟩
      | terminated =>
        have heq : joinable { s with todo := todo } = .ok (i, c) := joinable_eq hid hc hjoinable
        refine ⟨.owner, ?_⟩
        simp only [call, if_pos halive, htodo, join, heq, if_pos hphase]
        exact ⟨_, rfl⟩
  obtain ⟨e, r, he⟩ := henabled
  obtain ⟨t, rfl, -⟩ := h.step he
  exact ⟨e, t, he⟩

lemma Well.gone (h : Well s) (halive : s.alive = false) : ∀ c ∈ s.children, c.Gone := by
  cases h with
  | clean hgone => exact hgone
  | pending _ _ _ htrue =>
    rw [halive] at htrue
    cases htrue

/-! ### An owner that is not paired -/

/-- Some calls lead to a fault. -/
def Faults (callback : Bool) (calls : List Call) (s : State) : Prop :=
  ∃ f obs, (system callback calls).Steps (.ok s) obs (.error f)

lemma Faults.error (h : call s e = some (.error f)) : Faults callback calls s :=
  ⟨f, [], .single (step_error.mpr h)⟩

lemma Faults.ok (h : Faults callback calls t) (he : call s e = some (.ok t)) :
    Faults callback calls s := by
  obtain ⟨f, obs, hsteps⟩ := h
  have hstep : (system callback calls).Steps (.ok s) [] (.ok t) := .single (step_ok.mpr he)
  exact ⟨f, _, hstep.trans hsteps⟩

/-- The state in which the thread `i` has come to its end. -/
def finished (s : State) (i : ℕ) (c : Child) (tid : ℕ) : State :=
  setChild { s with tid_ := tid } i { c with phase := .terminated }

/-- A thread goes to `phase`, and from there to its end. -/
lemma Faults.advance (tid : ℕ) {phase : Phase}
    (hend : ∀ s c, s.alive = true → s.children[i]? = some c → c.phase = phase →
      (∀ tid, Faults callback calls (finished s i c tid)) → Faults callback calls s)
    (halive : s.alive = true) (hc : s.children[i]? = some c)
    (h : ∀ tid, Faults callback calls (finished s i c tid))
    (he : call s (.child i) =
      some (.ok (setChild { s with tid_ := tid } i { c with phase := phase }))) :
    Faults callback calls s := by
  have hlt := (List.getElem?_eq_some_iff.mp hc).1
  have hnext : Faults callback calls
      (setChild { s with tid_ := tid } i { c with phase := phase }) := by
    refine hend _ { c with phase := phase } halive (List.getElem?_set_self hlt) rfl fun tid' => ?_
    have hsame : finished (setChild { s with tid_ := tid } i { c with phase := phase }) i
        { c with phase := phase } tid' = finished s i c tid' := by
      simp [finished, setChild, List.set_set]
    exact hsame ▸ h tid'
  exact hnext.ok he

/-- A thread comes to its end, as long as the object exists. -/
lemma Faults.finished (halive : s.alive = true) (hc : s.children[i]? = some c)
    (h : ∀ tid, Faults callback calls (finished s i c tid)) : Faults callback calls s := by
  have hcall {s : State} {c : Child} (hc : s.children[i]? = some c) :
      call s (.child i) = runInThread s i c := by simp only [call, hc, Option.bind_some]
  have hterminated : ∀ s c, s.alive = true → s.children[i]? = some c → c.phase = .terminated →
      (∀ tid, Faults callback calls (Thread.finished s i c tid)) → Faults callback calls s := by
    intro s c _ hc hphase h
    have hset : s.children.set i { c with phase := .terminated } = s.children := by
      obtain ⟨hlt, rfl⟩ := List.getElem?_eq_some_iff.mp hc
      rw [← hphase]
      exact List.set_getElem_self hlt
    have hsame : Thread.finished s i c s.tid_ = s := by rw [Thread.finished, setChild, hset]
    exact hsame ▸ h s.tid_
  have hcallback : ∀ s c, s.alive = true → s.children[i]? = some c → c.phase = .callback →
      (∀ tid, Faults callback calls (Thread.finished s i c tid)) → Faults callback calls s := by
    intro s c halive hc hphase h
    refine advance s.tid_ hterminated halive hc h ?_
    rw [hcall hc, runInThread, hphase]
  have htest : ∀ s c, s.alive = true → s.children[i]? = some c → c.phase = .test →
      (∀ tid, Faults callback calls (Thread.finished s i c tid)) → Faults callback calls s := by
    intro s c halive hc hphase h
    by_cases hempty : s.callback = true
    · refine advance s.tid_ hcallback halive hc h ?_
      simp only [hcall hc, runInThread, hphase, if_pos halive, if_pos hempty]
    · refine advance s.tid_ hterminated halive hc h ?_
      simp only [hcall hc, runInThread, hphase, if_pos halive, if_neg hempty]
  cases hphase : c.phase with
  | terminated => exact hterminated s c halive hc hphase h
  | callback => exact hcallback s c halive hc hphase h
  | test => exact htest s c halive hc hphase h
  | begin =>
    refine advance c.gettid htest halive hc h ?_
    simp only [hcall hc, runInThread, hphase, if_pos halive]

/-- The object is destroyed under a thread that has not begun. -/
lemma Faults.destroyed (halive : s.alive = true) (hs : s.todo = []) (hc : s.children[i]? = some c)
    (hphase : c.phase = .begin) : Faults callback calls s := by
  have howner : call s .owner = some (destroy s) := by simp only [call, if_pos halive, hs]
  -- whether the destructor detaches a thread or not
  have hchild : ∀ t d, destroy s = .ok t → t.alive = false → t.children[i]? = some d →
      d.phase = .begin → Faults callback calls s := by
    intro t d ht hdead hd hbegin
    have herror : call t (.child i) = some (.error .destroyed) := by
      simp only [call, hd, Option.bind_some, runInThread, hbegin]
      rw [if_neg (by rw [hdead]; exact Bool.false_ne_true)]
    exact .ok (.error herror) (by rw [howner, ht])
  by_cases hdetach : s.started_ = true ∧ s.joined_ = false
  · cases hj : joinable s with
    | error f =>
      have herror : destroy s = .error f := by
        rw [destroy, if_pos hdetach, hj]
        rfl
      exact .error (howner.trans (congrArg some herror))
    | ok r =>
      obtain ⟨j, d⟩ := r
      have ht : destroy s = .ok (setChild { s with alive := false } j
          { d with reaping := .detached }) := by
        rw [destroy, if_pos hdetach, hj]
        rfl
      obtain ⟨-, hd, -⟩ := joinable_eq_ok hj
      by_cases hij : j = i
      · subst hij
        obtain rfl : c = d := Option.some.inj (hc.symm.trans hd)
        have hlt := (List.getElem?_eq_some_iff.mp hc).1
        exact hchild _ _ ht rfl (List.getElem?_set_self hlt) hphase
      · exact hchild _ c ht rfl ((List.getElem?_set_ne hij).trans hc) hphase
  · have ht : destroy s = .ok { s with alive := false } := if_neg hdetach
    exact hchild _ c ht rfl hc hphase

/-- The state in which the thread `i` has come to its end, and was joined. -/
def reaped (s : State) (i : ℕ) (c : Child) (tid : ℕ) (todo : List Call) : State :=
  { s with joined_ := true
           tid_ := tid
           children := s.children.set i { c with phase := .terminated, reaping := .joined }
           todo := todo }

lemma call_join {todo : List Call} (halive : s.alive = true) (hs : s.todo = .join :: todo)
    (hid : s.pthreadId_ = .thread i) (hc : s.children[i]? = some c)
    (hjoinable : c.reaping = .joinable) (tid : ℕ) :
    call (finished s i c tid) .owner = some (.ok (reaped s i c tid todo)) := by
  have hlt := (List.getElem?_eq_some_iff.mp hc).1
  have heq : joinable { finished s i c tid with todo := todo } =
      .ok (i, { c with phase := .terminated }) :=
    joinable_eq hid (List.getElem?_set_self hlt) hjoinable
  have hcall : call (finished s i c tid) .owner =
      join { finished s i c tid with todo := todo } := by
    simp only [call, finished, setChild, if_pos halive, hs]
  rw [hcall, join, heq]
  simp [reaped, finished, setChild]

/-- A thread that has not begun, and that no call can reach any more. -/
lemma Faults.orphan {todo : List Call} (hs : s.todo = todo) (halive : s.alive = true)
    (hc : s.children[i]? = some c) (hphase : c.phase = .begin) (hid : s.pthreadId_ ≠ .thread i) :
    Faults callback calls s := by
  have hlt := (List.getElem?_eq_some_iff.mp hc).1
  induction todo generalizing s with
  | nil => exact .destroyed halive hs hc hphase
  | cons x todo ih =>
    cases x with
    | start answer =>
      have howner : call s .owner = some (.ok (start { s with todo := todo } answer)) := by
        simp only [call, if_pos halive, hs]
      have hnext : Faults callback calls (start { s with todo := todo } answer) := by
        cases answer with
        | none => exact ih rfl halive hc nofun hlt
        | some gettid =>
          refine ih rfl halive ((List.getElem?_append_left hlt).trans hc) ?_ ?_
          · intro heq
            have hlast : s.children.length = i := PthreadId.thread.inj heq
            omega
          · exact Nat.lt_of_lt_of_le hlt (List.prefix_append _ _).length_le
      exact hnext.ok howner
    | join =>
      cases hj : joinable { s with todo := todo } with
      | error f =>
        have herror : call s .owner = some (.error f) := by
          simp only [call, if_pos halive, hs, join, hj]
        exact .error herror
      | ok r =>
        obtain ⟨j, d⟩ := r
        obtain ⟨hidj, hd, hjoinable⟩ := joinable_eq_ok hj
        have hij : j ≠ i := by
          rintro rfl
          exact hid hidj
        refine .finished halive hd fun tid => ?_
        have hnext : Faults callback calls (reaped s j d tid todo) := by
          refine ih rfl halive ((List.getElem?_set_ne hij).trans hc) hid ?_
          rw [reaped, List.length_set]
          exact hlt
        exact hnext.ok (call_join halive hs hidj hd hjoinable tid)

lemma call_start {answer : Option ℕ} {todo : List Call} (halive : s.alive = true)
    (hs : s.todo = .start answer :: todo) :
    call s .owner = some (.ok (start { s with todo := todo } answer)) := by
  simp only [call, if_pos halive, hs]

/-- Nothing can be joined in `s`, and the calls to come do not keep to the rule. -/
lemma Faults.of_not_paired {todo : List Call} (hs : s.todo = todo) (halive : s.alive = true)
    (hnone : ∀ r, joinable s ≠ .ok r) (h : ¬Paired todo) : Faults callback calls s := by
  induction todo using Paired.induct generalizing s with
  | case1 => exact absurd trivial h
  | case2 todo ih =>
    have hnext : Faults callback calls (start { s with todo := todo } none) :=
      ih rfl halive nofun h
    exact hnext.ok (call_start halive hs)
  | case3 gettid todo ih =>
    have hlast := List.getElem?_concat_length (l := s.children)
      (a := (⟨gettid, .begin, .joinable⟩ : Child))
    have hstart : Faults callback calls
        (start { s with todo := .join :: todo } (some gettid)) := by
      refine .finished halive hlast fun tid => ?_
      have hnext : Faults callback calls (reaped (start { s with todo := .join :: todo }
          (some gettid)) s.children.length ⟨gettid, .begin, .joinable⟩ tid todo) := by
        refine ih rfl halive ?_ h
        -- the thread that the object names was just joined
        rintro ⟨j, d⟩ hj
        obtain ⟨hid, hd, hjoinable⟩ := joinable_eq_ok hj
        obtain rfl : s.children.length = j := PthreadId.thread.inj hid
        have hlt := (List.getElem?_eq_some_iff.mp hlast).1
        rw [reaped, start, List.getElem?_set_self hlt] at hd
        cases hd
        cases hjoinable
      refine hnext.ok (call_join (s := start { s with todo := .join :: todo } (some gettid)) ?_ rfl
        rfl hlast rfl tid)
      exact halive
    exact hstart.ok (call_start halive hs)
  | case4 gettid =>
    have hstart : Faults callback calls (start { s with todo := [] } (some gettid)) :=
      .destroyed halive rfl List.getElem?_concat_length rfl
    exact hstart.ok (call_start halive hs)
  | case5 gettid answer todo =>
    -- the second `start` overwrites the only name of the first thread
    have hsecond : Faults callback calls (start { start { s with todo := .start answer :: todo }
        (some gettid) with todo := todo } answer) := by
      have hlast := List.getElem?_concat_length (l := s.children)
        (a := (⟨gettid, .begin, .joinable⟩ : Child))
      cases answer with
      | none => exact .orphan rfl halive hlast rfl nofun
      | some gettid' =>
        refine .orphan rfl halive ((List.getElem?_append_left ?_).trans hlast) rfl ?_
        · exact (List.getElem?_eq_some_iff.mp hlast).1
        · intro heq
          have hlen := PthreadId.thread.inj heq
          simp [start] at hlen
    have hstart : Faults callback calls
        (start { s with todo := .start answer :: todo } (some gettid)) :=
      hsecond.ok (call_start halive rfl)
    exact hstart.ok (call_start halive hs)
  | case6 todo =>
    cases hj : joinable { s with todo := todo } with
    | error f =>
      have herror : call s .owner = some (.error f) := by
        simp only [call, if_pos halive, hs, join, hj]
      exact .error herror
    | ok r => exact absurd hj (hnone r)

/-- All threads are gone when the object is, and until then somebody can go on. -/
def Tidy (s : State) : Prop :=
  (s.alive = false → ∀ c ∈ s.children, c.Gone) ∧
    (s.alive = true → ∃ e t, call s e = some (.ok t))

/-- In every interleaving of the owner with the threads it makes, nothing is undefined, no thread
outlives the object or is left to be joined, and until the end somebody can go on: if and only if
each `start` that succeeds is followed by `join`, and there is no other `join`. -/
theorem tidy_iff_paired : (∀ obs r, (system callback calls).Run obs r → ∃ s, r = .ok s ∧ Tidy s) ↔
    Paired calls := by
  constructor
  · intro h
    by_contra hnot
    obtain ⟨f, obs, hfault⟩ : Faults callback calls (init callback calls) :=
      .of_not_paired rfl rfl nofun hnot
    obtain ⟨s, heq, -⟩ := h obs _ hfault
    cases heq
  · intro hpaired obs r h
    obtain ⟨s, rfl, hw⟩ := well_of_run hpaired h
    exact ⟨s, rfl, hw.gone, hw.progress⟩

/-- The backend of `AsyncLogging`: it is started and joined, or it was never started. -/
example : Paired [.start (some 7), .join] ∧ ¬Paired [.join] := by decide

end ClwServer.Thread
