import ClwServer.Core.Cpp
import ClwServer.Net.EventLoopThread

/-!
# Destroying the thread of a loop

`~EventLoopThread` tests `loop_` and reads it once more for the call of `quit`, neither of them
under `mutex_`, while the child may leave its loop, clear `loop_` and destroy the loop. Here the
destructor is cut at each of its accesses to `loop_` and to the loop, and an access that has no
meaning is a fault.
-/

namespace ClwServer.EventLoopThread

open Cpp
open EventLoop (Obs)

/-- Where the owner is in `~EventLoopThread`. -/
inductive Dtor
  | before
  /-- Behind `if (loop_ != NULL)`. -/
  | tested
  /-- Behind the second read of `loop_`, before `quit_ = true`. -/
  | called
  /-- In `quit`, before the `wakeup`. -/
  | stored
  /-- In `thread_.join()`. -/
  | joining
  | completed
  deriving DecidableEq

/-- An `EventLoopThread` as its owner has it before the destructor, and the destructor. -/
structure Destroying (F : Type) where
  thread : State F
  dtor : Dtor

variable {F : Type}

inductive DestroyEvent (F : Type)
  /-- The child, `startLoop`, or a call of the loop. -/
  | thread (e : Event F)
  /-- The owner moves in the destructor. -/
  | owner
  deriving DecidableEq

/-- What a step may come to: the next state, with what it shows, or a fault. -/
abbrev Outcome (F : Type) := Except Fault (Destroying F × List (Obs F))

/-- The destructor calls the loop, which is a fault once the loop is destroyed. -/
def callLoop (s : Destroying F) (e : EventLoop.Event F) (next : Dtor) : Option (Outcome F) :=
  if Alive s.thread then
    (onLoop s.thread e).map fun r => .ok ({ thread := r.1, dtor := next }, r.2)
  else
    some (.error .destroyed)

/-- `~EventLoopThread` -/
def destructor (s : Destroying F) : Option (Outcome F) :=
  match s.dtor with
  | .before =>
    if s.thread.owner = .started ∧ s.thread.loop.callers 0 = .idle then
      -- without a loop nothing is quit, and `~Thread` detaches the child
      some (.ok ({ s with dtor := if s.thread.loop_ then .tested else .completed }, []))
    else
      none
  | .tested =>
    some (if s.thread.loop_ then .ok ({ s with dtor := .called }, []) else .error .nullDeref)
  | .called => callLoop s (.quit 0) .stored
  | .stored => callLoop s (.wake 0) .joining
  | .joining =>
    if s.thread.child = .exited then some (.ok ({ s with dtor := .completed }, [])) else none
  | .completed => none

/-- The owner makes other calls only before its destructor. -/
def NotInDtor (s : Destroying F) : Event F → Prop
  | .child => True
  | .owner => s.dtor = .before
  | .destroy => False
  | .on e => caller e = some 0 → s.dtor = .before

instance (s : Destroying F) (e : Event F) : Decidable (NotInDtor s e) := by
  cases e <;> unfold NotInDtor <;> infer_instance

/-- What happens beside the destructor. -/
def besideDtor (s : Destroying F) (e : Event F) : Option (Outcome F) :=
  if NotInDtor s e then
    (step s.thread e).map fun r => .ok ({ s with thread := r.1 }, r.2)
  else
    none

def destroyStep (s : Destroying F) : DestroyEvent F → Option (Outcome F)
  | .thread e => besideDtor s e
  | .owner => destructor s

/-- An `EventLoopThread` up to the end of its destructor. -/
def destroySystem (F : Type) : System (Except Fault (Destroying F)) (DestroyEvent F) (Obs F) :=
  .faulting { thread := init F, dtor := .before } destroyStep

/-! ### What the child may do meanwhile -/

/-- Between the test and the second read of `loop_` the child does not clear it, and until the
`wakeup` of `quit` it does not destroy the loop. -/
def Undisturbed : Except Fault (Destroying F) → DestroyEvent F → Prop
  | .ok s, .thread .child =>
    match s.dtor with
    | .tested => s.thread.child ≠ .clearing
    | .called | .stored => s.thread.child ≠ .destroying
    | .before | .joining | .completed => True
  | _, _ => True

instance (r : Except Fault (Destroying F)) (e : DestroyEvent F) : Decidable (Undisturbed r e) := by
  unfold Undisturbed
  split
  · split <;> infer_instance
  · infer_instance

/-- The child has executed `loop_ = NULL`, its last access to the object. -/
def LastAccessDone (s : State F) : Prop := s.child = .destroying ∨ s.child = .exited

/-! ### The invariant -/

/-- `loop_` is set while the child stands between its two writes to it, and `startLoop` returns
only behind the first one. -/
structure Inv (s : State F) : Prop where
  created : s.owner = .created → s.child = .ready
  loop_iff : s.loop_ = true ↔ s.child = .looping ∨ s.child = .clearing
  published : s.owner = .started → s.loop_ = true ∨ LastAccessDone s

/-- What holds in the destructor, in every run. -/
structure DtorInv (d : Destroying F) : Prop where
  thread : Inv d.thread
  started : d.dtor ≠ .before → d.thread.owner = .started
  completed : d.dtor = .completed → LastAccessDone d.thread

/-- The pointer the destructor is about to use is good. -/
structure Guarded (d : Destroying F) : Prop where
  tested : d.dtor = .tested → d.thread.loop_ = true
  alive : d.dtor = .called ∨ d.dtor = .stored → Alive d.thread

variable {s t : State F} {e : Event F} {o : List (Obs F)}

lemma Inv.alive (hs : Inv s) (h : s.loop_ = true) : Alive s := by
  rcases hs.loop_iff.mp h with hchild | hchild <;> simp only [Alive, hchild]

/-- What a step of the child does to its place in `ThreadFunc` and to `loop_`. -/
inductive ChildMove (s t : State F) : Prop
  | construct (hs : s.child = .constructing) (ht : t.child = .publishing) (hl : t.loop_ = s.loop_)
  | publish (hs : s.child = .publishing) (ht : t.child = .looping) (hl : t.loop_ = true)
  | leave (hs : s.child = .looping) (ht : t.child = .clearing) (hl : t.loop_ = s.loop_)
  | clear (hs : s.child = .clearing) (ht : t.child = .destroying) (hl : t.loop_ = false)
  | destroy (hs : s.child = .destroying) (ht : t.child = .exited) (hl : t.loop_ = s.loop_)

lemma ChildMove.of_threadFunc (h : threadFunc s = some t) : ChildMove s t ∧ t.owner = s.owner := by
  simp only [threadFunc] at h
  cases hchild : s.child <;> simp only [hchild, reduceCtorEq] at h
  case constructing =>
    cases h
    exact ⟨.construct hchild rfl rfl, rfl⟩
  case publishing =>
    cases h
    exact ⟨.publish hchild rfl rfl, rfl⟩
  case looping =>
    split at h <;> cases h
    exact ⟨.leave hchild rfl rfl, rfl⟩
  case clearing =>
    cases h
    exact ⟨.clear hchild rfl rfl, rfl⟩
  case destroying =>
    cases h
    exact ⟨.destroy hchild rfl rfl, rfl⟩

lemma ChildMove.loop_kept (hm : ChildMove s t) (h : s.loop_ = true) (hchild : s.child ≠ .clearing) :
    t.loop_ = true := by
  cases hm with
  | clear hs => exact absurd hs hchild
  | publish _ _ hl => exact hl
  | construct _ _ hl | leave _ _ hl | destroy _ _ hl => exact hl.trans h

lemma ChildMove.alive_kept (hm : ChildMove s t) (hchild : s.child ≠ .destroying) : Alive t := by
  cases hm with
  | destroy hs => exact absurd hs hchild
  | construct _ ht | publish _ ht | leave _ ht | clear _ ht => simp only [Alive, ht]

lemma ChildMove.lastAccessDone (hm : ChildMove s t) (h : LastAccessDone s) : LastAccessDone t := by
  cases hm with
  | destroy _ ht => exact .inr ht
  | clear _ ht => exact .inl ht
  | construct hs | publish hs | leave hs => rcases h with h | h <;> rw [hs] at h <;> cases h

lemma Inv.of_child (hs : Inv s) (hm : ChildMove s t) (howner : t.owner = s.owner) : Inv t := by
  have hnot : s.child ≠ .ready → t.owner ≠ .created := fun hchild hcreated =>
    hchild (hs.created (howner ▸ hcreated))
  have hloop := hs.loop_iff
  cases hm with
  | construct hchild ht hl =>
    rw [hchild] at hloop hnot
    refine ⟨fun h => absurd h (hnot nofun), by simpa [hl, ht] using hloop, fun h => ?_⟩
    rcases hs.published (howner ▸ h) with hset | hdone | hdone
    · exact .inl (hl.trans hset)
    · rw [hchild] at hdone
      cases hdone
    · rw [hchild] at hdone
      cases hdone
  | publish hchild ht hl =>
    rw [hchild] at hnot
    exact ⟨fun h => absurd h (hnot nofun), by simp [hl, ht], fun _ => .inl hl⟩
  | leave hchild ht hl =>
    rw [hchild] at hloop hnot
    exact ⟨fun h => absurd h (hnot nofun), by simpa [hl, ht] using hloop,
      fun _ => .inl (hl.trans (by simpa using hloop))⟩
  | clear hchild ht hl =>
    rw [hchild] at hnot
    exact ⟨fun h => absurd h (hnot nofun), by simp [hl, ht], fun _ => .inr (.inl ht)⟩
  | destroy hchild ht hl =>
    rw [hchild] at hloop hnot
    exact ⟨fun h => absurd h (hnot nofun), by simpa [hl, ht] using hloop, fun _ => .inr (.inr ht)⟩

/-- A call leaves the child and the owner where they are. -/
lemma of_onLoop {e : EventLoop.Event F} (h : onLoop s e = some (t, o)) :
    t.child = s.child ∧ t.owner = s.owner ∧ t.loop_ = s.loop_ := by
  obtain ⟨r, -, heq⟩ := Option.map_eq_some_iff.mp h
  cases heq
  exact ⟨rfl, rfl, rfl⟩

lemma Inv.of_same (hs : Inv s) (hchild : t.child = s.child) (howner : t.owner = s.owner)
    (hloop : t.loop_ = s.loop_) : Inv t where
  created h := hchild.trans (hs.created (howner ▸ h))
  loop_iff := by rw [hloop, hchild]; exact hs.loop_iff
  published h := by
    rw [LastAccessDone, hloop, hchild]
    exact hs.published (howner ▸ h)

lemma Inv.of_ownerStep (hs : Inv s) (h : ownerStep s = some (t, o)) : Inv t := by
  simp only [ownerStep] at h
  cases howner : s.owner <;> simp only [howner, reduceCtorEq] at h
  case created =>
    have hloop := hs.loop_iff
    simp only [hs.created howner, reduceCtorEq, or_self, iff_false] at hloop
    cases h
    exact ⟨by simp, by simpa using hloop, by simp⟩
  case starting =>
    split at h <;> cases h
    exact ⟨by simp, hs.loop_iff, fun _ => .inl ‹_›⟩
  case quitting | waking =>
    split at h
    · obtain ⟨hchild, howner, hloop⟩ := of_onLoop h
      exact ⟨by simp [howner], by rw [hloop, hchild]; exact hs.loop_iff, by simp [howner]⟩
    · cases h
  case joining =>
    split at h <;> cases h
    exact ⟨by simp, hs.loop_iff, by simp⟩

/-- A step of the child moves it in `ThreadFunc`, and no other step touches it or `loop_` once
`startLoop` has returned. -/
lemma child_of_step (h : step s e = some (t, o)) (hstarted : s.owner = .started) :
    ChildMove s t ∧ e = .child ∨ t.child = s.child ∧ t.loop_ = s.loop_ := by
  cases e with
  | child => exact .inl ⟨(ChildMove.of_threadFunc (step_child.mp h).1).1, rfl⟩
  | owner =>
    simp only [step, ownerStep, hstarted, reduceCtorEq] at h
  | destroy =>
    simp only [step] at h
    split at h <;> cases h
    exact .inr ⟨rfl, rfl⟩
  | on e =>
    obtain ⟨hchild, -, hloop⟩ := of_onLoop (step_on.mp h).2
    exact .inr ⟨hchild, hloop⟩

lemma Inv.of_step (hs : Inv s) (h : step s e = some (t, o)) : Inv t := by
  cases e with
  | child =>
    obtain ⟨hm, howner⟩ := ChildMove.of_threadFunc (step_child.mp h).1
    exact hs.of_child hm howner
  | owner => exact hs.of_ownerStep h
  | destroy =>
    simp only [step] at h
    split at h <;> cases h
    refine ⟨?_, hs.loop_iff, ?_⟩ <;> intro hpc <;> split at hpc <;> cases hpc
  | on e =>
    obtain ⟨hchild, howner, hloop⟩ := of_onLoop (step_on.mp h).2
    exact hs.of_same hchild howner hloop

/-- In the destructor the owner makes no other step. -/
lemma owner_of_step {d : Destroying F} (he : NotInDtor d e) (hdtor : d.dtor ≠ .before)
    (h : step d.thread e = some (t, o)) : t.owner = d.thread.owner := by
  cases e with
  | child => exact (ChildMove.of_threadFunc (step_child.mp h).1).2
  | owner => exact absurd he hdtor
  | destroy => exact he.elim
  | on e => exact (of_onLoop (step_on.mp h).2).2.1

/-! ### The destructor -/

variable {d d' : Destroying F}

/-- What happens beside the destructor. -/
lemma of_besideDtor (h : besideDtor d e = some (.ok (d', o))) :
    NotInDtor d e ∧ step d.thread e = some (d'.thread, o) ∧ d'.dtor = d.dtor := by
  simp only [besideDtor] at h
  split at h
  · obtain ⟨⟨t, o'⟩, hstep, heq⟩ := Option.map_eq_some_iff.mp h
    cases heq
    exact ⟨‹_›, hstep, rfl⟩
  · cases h

lemma of_callLoop {e : EventLoop.Event F} {next : Dtor}
    (h : callLoop d e next = some (.ok (d', o))) :
    Alive d.thread ∧ onLoop d.thread e = some (d'.thread, o) ∧ d'.dtor = next := by
  simp only [callLoop] at h
  split at h
  · obtain ⟨⟨t, o'⟩, hcall, heq⟩ := Option.map_eq_some_iff.mp h
    cases heq
    exact ⟨‹_›, hcall, rfl⟩
  · cases h

/-- A step of the destructor that is no fault. -/
inductive DtorMove (d d' : Destroying F) : Prop
  | test (hd : d.dtor = .before) (hstarted : d.thread.owner = .started)
      (h : d'.thread = d.thread) (hloop : d.thread.loop_ = true) (hd' : d'.dtor = .tested)
  | skip (hd : d.dtor = .before) (hstarted : d.thread.owner = .started)
      (h : d'.thread = d.thread) (hloop : d.thread.loop_ = false) (hd' : d'.dtor = .completed)
  | read (hd : d.dtor = .tested) (h : d'.thread = d.thread) (hloop : d.thread.loop_ = true)
      (hd' : d'.dtor = .called)
  | store (hd : d.dtor = .called) (halive : Alive d.thread)
      (h : ∃ o, onLoop d.thread (.quit 0) = some (d'.thread, o)) (hd' : d'.dtor = .stored)
  | wake (hd : d.dtor = .stored) (halive : Alive d.thread)
      (h : ∃ o, onLoop d.thread (.wake 0) = some (d'.thread, o)) (hd' : d'.dtor = .joining)
  | join (hd : d.dtor = .joining) (hchild : d.thread.child = .exited) (h : d'.thread = d.thread)
      (hd' : d'.dtor = .completed)

lemma DtorMove.of_destructor (h : destructor d = some (.ok (d', o))) : DtorMove d d' := by
  simp only [destructor] at h
  cases hdtor : d.dtor <;> simp only [hdtor, reduceCtorEq] at h
  case before =>
    split at h
    · rename_i hstarted
      cases hloop : d.thread.loop_ <;> simp only [hloop, if_true] at h <;> cases h
      · exact .skip hdtor hstarted.1 rfl hloop rfl
      · exact .test hdtor hstarted.1 rfl hloop rfl
    · cases h
  case tested =>
    split at h <;> cases h
    exact .read hdtor rfl ‹_› rfl
  case called =>
    obtain ⟨halive, hcall, hnext⟩ := of_callLoop h
    exact .store hdtor halive ⟨o, hcall⟩ hnext
  case stored =>
    obtain ⟨halive, hcall, hnext⟩ := of_callLoop h
    exact .wake hdtor halive ⟨o, hcall⟩ hnext
  case joining =>
    split at h <;> cases h
    exact .join hdtor ‹_› rfl rfl

lemma DtorInv.of_beside (hd : DtorInv d) (h : besideDtor d e = some (.ok (d', o))) :
    DtorInv d' := by
  obtain ⟨he, hstep, hdtor⟩ := of_besideDtor h
  refine ⟨hd.thread.of_step hstep, ?_, ?_⟩ <;> rw [hdtor] <;> intro hpc
  · exact (owner_of_step he hpc hstep).trans (hd.started hpc)
  · have hdone := hd.completed hpc
    rcases child_of_step hstep (hd.started (by simp [hpc])) with ⟨hm, -⟩ | ⟨hchild, -⟩
    · exact hm.lastAccessDone hdone
    · simpa only [LastAccessDone, hchild] using hdone

lemma DtorInv.of_dtor (hd : DtorInv d) (hm : DtorMove d d') : DtorInv d' := by
  cases hm with
  | test _ hstarted h _ hd' => exact ⟨h ▸ hd.thread, fun _ => h ▸ hstarted, by simp [hd']⟩
  | skip _ hstarted h hloop hd' =>
    refine ⟨h ▸ hd.thread, fun _ => h ▸ hstarted, fun _ => h ▸ ?_⟩
    exact (hd.thread.published hstarted).resolve_left (by simp [hloop])
  | read hpc h _ hd' =>
    exact ⟨h ▸ hd.thread, fun _ => h ▸ hd.started (by simp [hpc]), by simp [hd']⟩
  | store hpc _ h hd' | wake hpc _ h hd' =>
    obtain ⟨o, hcall⟩ := h
    obtain ⟨hchild, howner, hloop⟩ := of_onLoop hcall
    exact ⟨hd.thread.of_same hchild howner hloop,
      fun _ => howner.trans (hd.started (by simp [hpc])), by simp [hd']⟩
  | join hpc hexited h _ =>
    exact ⟨h ▸ hd.thread, fun _ => h ▸ hd.started (by simp [hpc]), fun _ => h ▸ .inr hexited⟩

lemma dtorInv_of_run {obs : List (Obs F)} {d : Destroying F}
    (h : (destroySystem F).Run obs (.ok d)) : DtorInv d := by
  refine h.ok_invariant (P := fun _ d => DtorInv d) ?_ ?_
  · exact ⟨⟨fun _ => rfl, by simp [init], nofun⟩, fun h => absurd rfl h, nofun⟩
  · intro _ d e d' o hd he
    cases e with
    | thread e => exact hd.of_beside he
    | owner => exact hd.of_dtor (.of_destructor he)

/-- The destructor does not complete before the last access of the child to the object, whatever
the threads do. -/
theorem lastAccessDone_of_completed {obs : List (Obs F)}
    (h : (destroySystem F).Run obs (.ok d)) (hpc : d.dtor = .completed) :
    LastAccessDone d.thread :=
  (dtorInv_of_run h).completed hpc

/-! ### The destructor in fewer steps -/

/-- The owner before its destructor. -/
def Owner.outside : Owner → Owner
  | .created => .created
  | .starting => .starting
  | .started | .quitting | .waking | .joining | .destroyed => .started

/-- The destructor that reads `loop_` for the second time and stores `quit_` in one step. -/
def Owner.dtor : Owner → Dtor
  | .created | .starting | .started => .before
  | .quitting => .tested
  | .waking => .stored
  | .joining => .joining
  | .destroyed => .completed

/-- The state of an `EventLoopThread`, with its destructor apart. -/
def ofState (s : State F) : Destroying F where
  thread := { s with owner := s.owner.outside }
  dtor := s.owner.dtor

lemma threadFunc_ofState (h : threadFunc s = some t) :
    threadFunc (ofState s).thread = some (ofState t).thread ∧ t.owner = s.owner := by
  simp only [threadFunc, ofState] at h ⊢
  cases hchild : s.child <;> simp only [hchild, reduceCtorEq] at h ⊢
  case looping =>
    split at h <;> cases h
    exact ⟨if_pos ‹_›, rfl⟩
  all_goals
    cases h
    exact ⟨rfl, rfl⟩

lemma onLoop_owner (w : Owner) {e : EventLoop.Event F} (h : onLoop s e = some (t, o)) :
    onLoop { s with owner := w } e = some ({ t with owner := w }, o) := by
  obtain ⟨⟨l, o'⟩, hl, heq⟩ := Option.map_eq_some_iff.mp h
  cases heq
  simp only [onLoop, hl, Option.map_some]

lemma callable_ofState {e : EventLoop.Event F} (h : Callable s e) :
    Callable (ofState s).thread e ∧ NotInDtor (ofState s) (.on e) := by
  simp only [Callable, NotInDtor] at h ⊢
  cases hcaller : caller e with
  | none =>
    simp only [hcaller] at h
    exact ⟨h, nofun⟩
  | some i =>
    simp only [hcaller] at h
    obtain ⟨halive, ⟨hcreated, hstarting⟩, howner⟩ := h
    have houtside : s.owner.outside = .started := by
      cases hs : s.owner with
      | created => exact absurd hs hcreated
      | starting => exact absurd hs hstarting
      | _ => rfl
    refine ⟨⟨halive, ⟨by simp [ofState, houtside], by simp [ofState, houtside]⟩,
      fun _ => houtside⟩, fun hi => ?_⟩
    simp only [ofState, howner (Option.some.inj hi), Owner.dtor]

/-- A call of the loop that leads the owner to `w`. -/
lemma callLoop_ofState {e : EventLoop.Event F} {w : Owner} {pc : Dtor} (halive : Alive s)
    (hw : w.outside = .started) (h : onLoop { s with owner := w } e = some (t, o)) :
    callLoop { thread := { s with owner := .started }, dtor := pc } e w.dtor =
      some (.ok (ofState t, o)) := by
  obtain ⟨-, howner, -⟩ := of_onLoop h
  have hcall : onLoop { s with owner := .started } e = some ({ t with owner := .started }, o) :=
    onLoop_owner (s := { s with owner := w }) .started h
  have halive' : Alive { s with owner := .started } := halive
  rw [callLoop, if_pos halive', hcall]
  simp only [Option.map_some, ofState, howner, hw]

lemma steps_of_owner (h : ownerStep s = some (t, o)) :
    (destroySystem F).Steps (.ok (ofState s)) o (.ok (ofState t)) := by
  obtain ⟨child, owner, loop_, loop⟩ := s
  cases owner <;> simp only [ownerStep, reduceCtorEq] at h
  case created =>
    cases h
    exact .single (e := .thread .owner) rfl
  case starting =>
    split at h <;> cases h
    subst loop_
    exact .single (e := .thread .owner) rfl
  case quitting =>
    split at h
    · obtain ⟨hset, halive⟩ := ‹_ ∧ _›
      obtain rfl : loop_ = true := hset
      have hread : (destroySystem F).Steps (.ok (ofState ⟨child, .quitting, true, loop⟩)) []
          (.ok { thread := ⟨child, .started, true, loop⟩, dtor := .called }) :=
        .single (e := .owner) rfl
      exact hread.trans (.single (e := .owner)
        (System.faulting_step_ok.mpr (callLoop_ofState halive rfl h)))
    · cases h
  case waking =>
    split at h
    · rename_i halive
      exact .single (e := .owner)
        (System.faulting_step_ok.mpr (callLoop_ofState halive rfl h))
    · cases h
  case joining =>
    split at h <;> cases h
    subst child
    exact .single (e := .owner) rfl

/-- A run in which nothing comes between the second read of `loop_` and the store is one here. -/
theorem run_of_system {obs : List (Obs F)} (h : (system F).Run obs s) :
    (destroySystem F).Run obs (.ok (ofState s)) := by
  refine h.invariant (P := fun obs s => (destroySystem F).Run obs (.ok (ofState s))) .init ?_
  intro obs s e t o _ ih he
  refine ih.trans ?_
  change step s e = some (t, o) at he
  cases e with
  | child =>
    obtain ⟨hchild, rfl⟩ := step_child.mp he
    obtain ⟨hthread, howner⟩ := threadFunc_ofState hchild
    refine .single (e := .thread .child) (System.faulting_step_ok.mpr ?_)
    simp only [destroyStep, besideDtor, NotInDtor, step, hthread, if_true, Option.map_some]
    simp only [ofState, howner]
  | owner => exact steps_of_owner he
  | destroy =>
    simp only [step] at he
    split at he
    · rename_i hstarted
      cases he
      refine .single (e := .owner) (System.faulting_step_ok.mpr ?_)
      have hidle := hstarted.2
      simp only [destroyStep, destructor, ofState, hstarted.1, Owner.dtor, Owner.outside, hidle]
      cases hloop : s.loop_ <;> simp
    · cases he
  | on e =>
    obtain ⟨hcall, he⟩ := step_on.mp he
    obtain ⟨hcallable, hnot⟩ := callable_ofState hcall
    obtain ⟨-, howner, -⟩ := of_onLoop he
    refine .single (e := .thread (.on e)) (System.faulting_step_ok.mpr ?_)
    simp only [destroyStep, besideDtor, if_pos hnot, step, if_pos hcallable]
    simp only [ofState, onLoop_owner _ he, Option.map_some, howner]

/-! ### An undisturbed destructor -/

lemma Guarded.of_beside (hg : Guarded d) (hd : DtorInv d)
    (hquiet : Undisturbed (.ok d) (.thread e)) (h : besideDtor d e = some (.ok (d', o))) :
    Guarded d' := by
  obtain ⟨-, hstep, hdtor⟩ := of_besideDtor h
  constructor <;> rw [hdtor] <;> intro hpc
  · have hset := hg.tested hpc
    rcases child_of_step hstep (hd.started (by simp [hpc])) with ⟨hm, rfl⟩ | ⟨-, hloop⟩
    · simp only [Undisturbed, hpc] at hquiet
      exact hm.loop_kept hset hquiet
    · exact hloop.trans hset
  · have halive := hg.alive hpc
    rcases child_of_step hstep (hd.started (by rcases hpc with h | h <;> simp [h])) with
      ⟨hm, rfl⟩ | ⟨hchild, -⟩
    · refine hm.alive_kept ?_
      rcases hpc with hpc | hpc <;> simpa only [Undisturbed, hpc] using hquiet
    · simpa only [Alive, hchild] using halive

lemma Guarded.of_dtor (hd : DtorInv d) (hm : DtorMove d d') : Guarded d' := by
  cases hm with
  | test _ _ h hloop hd' => exact ⟨fun _ => h ▸ hloop, by simp [hd']⟩
  | skip _ _ _ _ hd' | wake _ _ _ hd' | join _ _ _ hd' => exact ⟨by simp [hd'], by simp [hd']⟩
  | read _ h hloop hd' => exact ⟨by simp [hd'], fun _ => h ▸ hd.thread.alive hloop⟩
  | store _ halive h hd' =>
    obtain ⟨o, hcall⟩ := h
    obtain ⟨hchild, -, -⟩ := of_onLoop hcall
    exact ⟨by simp [hd'], fun _ => by simpa only [Alive, hchild] using halive⟩

/-- With a good pointer the destructor makes no fault. -/
lemma Guarded.no_fault {f : Fault} (hg : Guarded d) : destructor d ≠ some (.error f) := by
  intro h
  simp only [destructor] at h
  cases hdtor : d.dtor <;> simp only [hdtor, reduceCtorEq] at h
  case before | joining =>
    split at h <;> cases h
  case tested =>
    rw [if_pos (hg.tested hdtor)] at h
    cases h
  case called =>
    rw [callLoop, if_pos (hg.alive (.inl hdtor))] at h
    obtain ⟨r, -, heq⟩ := Option.map_eq_some_iff.mp h
    cases heq
  case stored =>
    rw [callLoop, if_pos (hg.alive (.inr hdtor))] at h
    obtain ⟨r, -, heq⟩ := Option.map_eq_some_iff.mp h
    cases heq

lemma besideDtor_no_fault {f : Fault} : besideDtor d e ≠ some (.error f) := by
  intro h
  simp only [besideDtor] at h
  split at h
  · obtain ⟨r, -, heq⟩ := Option.map_eq_some_iff.mp h
    cases heq
  · cases h

lemma guarded_of_run {obs : List (Obs F)} {r : Except Fault (Destroying F)}
    (h : ((destroySystem F).restrict Undisturbed).Run obs r) : ∃ d, r = .ok d ∧ Guarded d := by
  refine h.invariant (P := fun _ r => ∃ d, r = .ok d ∧ Guarded d)
    ⟨_, rfl, nofun, by simp⟩ ?_
  rintro obs _ e r o hrun ⟨d, rfl, hg⟩ he
  obtain ⟨hquiet, he⟩ := System.restrict_step.mp he
  have hd := dtorInv_of_run hrun.of_restrict
  rcases r with f | d'
  · obtain ⟨hfault, -⟩ := System.faulting_step_error.mp he
    cases e with
    | thread e => exact absurd hfault besideDtor_no_fault
    | owner => exact absurd hfault hg.no_fault
  · refine ⟨d', rfl, ?_⟩
    have he' := System.faulting_step_ok.mp he
    cases e with
    | thread e => exact hg.of_beside hd hquiet he'
    | owner => exact .of_dtor hd (.of_destructor he')

/-- An undisturbed destructor never calls a loop that is gone, and completes behind the last
access of the child. -/
theorem destroy_safe {obs : List (Obs F)} {r : Except Fault (Destroying F)}
    (h : ((destroySystem F).restrict Undisturbed).Run obs r) :
    ∃ d, r = .ok d ∧ (d.dtor = .completed → LastAccessDone d.thread) := by
  obtain ⟨d, rfl, -⟩ := guarded_of_run h
  exact ⟨d, rfl, fun hpc => lastAccessDone_of_completed h.of_restrict hpc⟩

/-- The destructor quits a loop that sleeps, and joins the child. -/
theorem destroy_safe_join :
    ∃ (obs : List (Obs ℕ)) (d : Destroying ℕ),
      ((destroySystem ℕ).restrict Undisturbed).Run obs (.ok d) ∧ d.dtor = .completed ∧
        LastAccessDone d.thread := by
  obtain ⟨obs, d, hexec, hdtor⟩ : ∃ obs d,
      ((destroySystem ℕ).restrict Undisturbed).exec (destroySystem ℕ).init
        [.thread .owner, .thread .child, .thread .child, .thread .owner, .thread (.on .loop),
          .thread (.on .loop), .thread (.on .loop), .owner, .owner, .owner, .owner,
          .thread (.on (.poll [] [] true)), .thread (.on .loop), .thread (.on .loop),
          .thread (.on .loop), .thread (.on .loop), .thread (.on .loop), .thread (.on .loop),
          .thread (.on .loop), .thread (.on .loop), .thread .child, .thread .child, .thread .child,
          .owner] = some (.ok d, obs) ∧ d.dtor = .completed := ⟨_, _, rfl, rfl⟩
  have hrun : ((destroySystem ℕ).restrict Undisturbed).Run obs (.ok d) := .of_exec _ hexec
  obtain ⟨d', heq, hdone⟩ := destroy_safe hrun
  cases heq
  exact ⟨obs, d, hrun, hdtor, hdone hdtor⟩

/-- Each step that disturbs the destructor makes its next access a fault. -/
theorem fault_of_disturbed {e : DestroyEvent F} (hdisturbed : ¬Undisturbed (.ok d) e)
    (h : destroyStep d e = some (.ok (d', o))) : ∃ f, destructor d' = some (.error f) := by
  rcases e with (_ | _ | _ | _) | _
  case thread.child =>
    obtain ⟨-, hstep, hdtor⟩ := of_besideDtor h
    obtain ⟨hm, -⟩ := ChildMove.of_threadFunc (step_child.mp hstep).1
    simp only [Undisturbed] at hdisturbed
    cases hpc : d.dtor <;> simp only [hpc, not_true_eq_false, not_not, ne_eq] at hdisturbed
    case tested =>
      refine ⟨.nullDeref, ?_⟩
      have hnull : d'.thread.loop_ = false := by
        cases hm with
        | clear _ _ hl => exact hl
        | construct hs | publish hs | leave hs | destroy hs =>
          rw [hdisturbed] at hs
          cases hs
      simp [destructor, hdtor, hpc, hnull]
    case called | stored =>
      refine ⟨.destroyed, ?_⟩
      have hdead : ¬Alive d'.thread := by
        cases hm with
        | destroy _ ht => simp [Alive, ht]
        | construct hs | publish hs | leave hs | clear hs =>
          rw [hdisturbed] at hs
          cases hs
      simp [destructor, hdtor, hpc, callLoop, hdead]
  all_goals exact absurd trivial hdisturbed

/-- A functor quits the loop, and the child clears `loop_` between the two reads of it; or the
destructor quits the loop itself, and the child destroys it before the `wakeup`. -/
theorem destroy_faults :
    (∃ obs, (destroySystem ℕ).Run obs (.error .nullDeref)) ∧
      ∃ obs, (destroySystem ℕ).Run obs (.error .destroyed) := by
  constructor
  · obtain ⟨obs, hexec⟩ : ∃ obs, (destroySystem ℕ).exec (destroySystem ℕ).init
        [.thread .owner, .thread .child, .thread .child, .thread .owner, .thread (.on .loop),
          .thread (.on .loop), .thread (.on (.queue 1 7)), .thread (.on (.wake 1)),
          .thread (.on .loop), .thread (.on (.poll [] [] true)), .thread (.on .loop),
          .thread (.on .loop), .thread (.on .loop), .thread (.on .loop), .thread (.on .loop),
          .thread (.on .ownQuit), .thread (.on .ownReturn), .thread (.on .loop),
          .thread (.on .loop), .thread (.on .loop), .thread (.on .loop), .thread .child, .owner,
          .thread .child, .owner] = some (.error .nullDeref, obs) := ⟨_, rfl⟩
    exact ⟨obs, .of_exec _ hexec⟩
  · obtain ⟨obs, hexec⟩ : ∃ obs, (destroySystem ℕ).exec (destroySystem ℕ).init
        [.thread .owner, .thread .child, .thread .child, .thread .owner, .thread (.on .loop),
          .thread (.on .loop), .owner, .owner, .owner, .thread (.on .loop), .thread (.on .loop),
          .thread .child, .thread .child, .thread .child, .owner] = some (.error .destroyed, obs) :=
      ⟨_, rfl⟩
    exact ⟨obs, .of_exec _ hexec⟩

end ClwServer.EventLoopThread
