import ClwServer.Net.TcpConnection.OnLoop

/-!
# The removal of a connection

Two things remove a connection from `ConnectionMap` and from epoll: a hang-up without input, and a
`read` that returns 0. An error alone is written to the log, and under edge-triggered epoll it does
not come again.
-/

namespace ClwServer.TcpConnection

open Cpp Posix
open Channel (HungUp)
open EventLoop (watch)

/-! ### What a run has shown -/

/-- The masks that `handleEvent` was called with. -/
def masks (obs : List Obs) : List Events :=
  obs.filterMap fun
    | .dispatched revents => some revents
    | .read _ => none

/-- The outcomes of `read`. -/
def reads (obs : List Obs) : List ReadOutcome :=
  obs.filterMap fun
    | .dispatched _ => none
    | .read o => some o

/-- A mask has reported a hang-up or an error. -/
def Reported (obs : List Obs) : Prop :=
  ∃ revents ∈ masks obs, revents.Has (EPOLLHUP ||| EPOLLERR)

/-- A mask has reported a hang-up without input, or a `read` has returned 0. -/
def Ended (obs : List Obs) : Prop := (∃ revents ∈ masks obs, HungUp revents) ∨ .eof ∈ reads obs

lemma ended_append {obs : List Obs} {x : Obs} : Ended (obs ++ [x]) ↔ Ended obs ∨
    match x with
    | .dispatched revents => HungUp revents
    | .read o => o = .eof := by
  cases x with
  | dispatched revents => simp [Ended, masks, reads, or_and_right, exists_or, or_right_comm]
  | read o => simp [Ended, masks, reads, or_assoc, eq_comm]

/-! ### The invariant -/

/-- The connection is in `ConnectionMap` and in epoll until it has ended. -/
structure Tracks (obs : List Obs) (t : OnLoop) : Prop where
  inMap : t.current.inMap = true ↔ ¬Ended obs
  registered : t.current.registered = true ↔ t.stage = .established ∧ ¬Ended obs
  /-- Before `connectEstablished` nothing is reported. -/
  early : t.stage ≠ .established → t.edge = false ∧ t.thread = .idle ∧ ¬Ended obs

lemma not_ended_nil : ¬Ended [] := by simp [Ended, masks, reads]

lemma tracks_init : Tracks [] device.system.init where
  inMap := iff_of_true rfl not_ended_nil
  registered := iff_of_false (by simp [device, OnLoop.current, accepted]) (by simp [device])
  early := fun _ => ⟨rfl, rfl, not_ended_nil⟩

variable {t t' : OnLoop} {e : Event} {obs o : List Obs} {x : Obs} {r : ReadOutcome}

/-- Nothing is shown, and the connection is the same. -/
lemma Tracks.stay (h : Tracks obs t) (hcurrent : t'.current = t.current)
    (hstage : t'.stage = .established ↔ t.stage = .established)
    (hearly : t.stage ≠ .established → t'.edge = false ∧ t'.thread = .idle) :
    Tracks (obs ++ []) t' := by
  rw [List.append_nil]
  refine ⟨?_, ?_, fun hne => ?_⟩
  · rw [hcurrent, h.inMap]
  · rw [hcurrent, hstage, h.registered]
  · have hold : t.stage ≠ .established := fun heq => hne (hstage.mpr heq)
    obtain ⟨hedge, hthread⟩ := hearly hold
    exact ⟨hedge, hthread, (h.early hold).2.2⟩

lemma Tracks.establish (h : Tracks obs t) (hstage : t.stage ≠ .established) (ready : Bool) :
    Tracks (obs ++ []) (establish t ready) := by
  obtain ⟨-, hthread, hended⟩ := h.early hstage
  have hcurrent : t.current = t.conn := by simp [OnLoop.current, hthread]
  have hnew : (TcpConnection.establish t ready).current = connectEstablished t.conn := by
    simp [OnLoop.current, TcpConnection.establish, hthread]
  rw [List.append_nil]
  refine ⟨?_, ?_, fun hne => absurd rfl hne⟩
  · rw [hnew, ← h.inMap, hcurrent]
    rfl
  · rw [hnew]
    exact iff_of_true rfl ⟨rfl, hended⟩

/-- The connection goes on in `handleEvent`; what is shown ends it, or leaves it as it is. -/
lemma Tracks.handle (h : Tracks obs t) (hthread : t.thread ≠ .idle)
    (hstage : t'.stage = t.stage) {ends : Prop}
    (hended : Ended (obs ++ [x]) ↔ Ended obs ∨ ends)
    (hinMap : t'.current.inMap = true ↔ t.current.inMap = true ∧ ¬ends)
    (hregistered : t'.current.registered = true ↔ t.current.registered = true ∧ ¬ends) :
    Tracks (obs ++ [x]) t' where
  inMap := by rw [hinMap, h.inMap, hended, not_or]
  registered := by rw [hregistered, h.registered, hended, hstage, not_or, and_assoc]
  early := by
    rw [hstage]
    intro hne
    exact absurd (h.early hne).2.1 hthread

lemma inMap_after (s : State) (r : ReadOutcome) :
    (after s r).inMap = true ↔ s.inMap = true ∧ ¬r = .eof := by
  cases r <;> simp [after, messageCallback, removeConnection, connectDestroyed]

lemma registered_after (s : State) (r : ReadOutcome) :
    (after s r).registered = true ↔ s.registered = true ∧ ¬r = .eof := by
  cases r <;> simp [after, messageCallback, removeConnection, connectDestroyed]

lemma inMap_afterHangUp (revents : Events) (s : State) :
    (afterHangUp revents s).inMap = true ↔ s.inMap = true ∧ ¬HungUp revents := by
  by_cases hhup : HungUp revents <;> simp [afterHangUp, hhup, inMap_after]

lemma registered_afterHangUp (revents : Events) (s : State) :
    (afterHangUp revents s).registered = true ↔ s.registered = true ∧ ¬HungUp revents := by
  by_cases hhup : HungUp revents <;> simp [afterHangUp, hhup, registered_after]

lemma Tracks.move (h : Tracks obs t) (hc : Course t) (hm : Move t e t' o) :
    Tracks (obs ++ o) t' := by
  cases hm with
  | submit hstage =>
    have hne : t.stage ≠ .established := by simp [hstage]
    exact h.stay rfl (by simp [hstage]) fun _ => ⟨(h.early hne).1, (h.early hne).2.1⟩
  | establish ready hstage | establishNow ready hstage => exact h.establish (by simp [hstage]) ready
  | edge hregistered =>
    have hstage := (h.registered.mp hregistered).1
    exact h.stay rfl .rfl fun hne => absurd hstage hne
  | skip hthread => exact h.stay rfl .rfl fun hne => ⟨(h.early hne).1, hthread⟩
  | drop hthread => exact h.stay rfl .rfl fun _ => ⟨rfl, hthread⟩
  | report revents hthread hedge =>
    refine h.stay (by simp [OnLoop.current, hthread]) .rfl fun hne => ?_
    rw [(h.early hne).1] at hedge
    cases hedge
  | enter revents progress hthread hprogress =>
    have hcurrent : t.current = t.conn := by simp [OnLoop.current, hthread]
    have hstate : progress.state = afterHangUp revents t.conn := by
      rw [handleEvent_nil hprogress]
      split <;> rfl
    refine h.handle (by simp [hthread]) rfl ended_append ?_ ?_
    · rw [hcurrent, ← inMap_afterHangUp, ← hstate]
      rfl
    · rw [hcurrent, ← registered_afterHangUp, ← hstate]
      rfl
  | read revents start u os r progress hthread hprogress =>
    have hcurrent : t.current = u := by simp [OnLoop.current, hthread]
    have hstate := hc.state_read hthread hprogress
    by_cases hagain : r = .failed EAGAIN
    · rw [if_pos hagain] at hstate
      refine h.handle (by simp [hthread]) rfl ended_append ?_ ?_
      all_goals rw [hcurrent]; simp [OnLoop.current, hstate, hagain]
    · rw [if_neg hagain] at hstate
      refine h.handle (by simp [hthread]) rfl ended_append ?_ ?_
      · rw [hcurrent, ← inMap_after, ← hstate]
        rfl
      · rw [hcurrent, ← registered_after, ← hstate]
        rfl
  | leave revents start s os hthread =>
    refine h.stay (by simp [OnLoop.current, hthread]) .rfl fun hne => ?_
    have hidle := (h.early hne).2.1
    rw [hthread] at hidle
    cases hidle

lemma tracks_of_run (h : device.system.Run obs t) : Tracks obs t :=
  h.invariant (P := Tracks) tracks_init fun _ _ _ _ _ hr ht he =>
    ht.move (course_of_reachable hr.reachable) (.of_step he)

/-! ### Dead connections -/

/-- Out of `ConnectionMap`, and out of the epoll set of its loop. -/
def Removed (s : State) : Prop := s.inMap = false ∧ s.registered = false

lemma Tracks.removed_iff (h : Tracks obs t) : Removed t.current ↔ Ended obs := by
  constructor
  · rintro ⟨hmap, -⟩
    by_contra hended
    rw [h.inMap.mpr hended] at hmap
    cases hmap
  · intro hended
    constructor
    · rw [← Bool.not_eq_true, h.inMap]
      exact not_not_intro hended
    · rw [← Bool.not_eq_true, h.registered]
      exact fun hregistered => hregistered.2 hended

section Watch

variable {F : Type} [DecidableEq F] {c : ℕ} {mine : Option F}

/-- In every state of every run, blocked in `epoll_wait` or not, a connection of which a mask has
reported a hang-up or an error, or a `read` has returned 0, is removed if and only if, where a mask
has reported it, some mask had a hang-up without input, or some `read` has returned 0. -/
theorem removed_when_dead_iff {shown : List (EventLoop.Obs F ⊕ Obs)}
    {p : EventLoop.State F × OnLoop} (h : (watch c mine device).Run shown p) :
    (Reported (System.rights shown) ∨ .eof ∈ reads (System.rights shown) →
        Removed p.2.current) ↔
      (Reported (System.rights shown) →
        (∃ revents ∈ masks (System.rights shown), HungUp revents) ∨
          .eof ∈ reads (System.rights shown)) := by
  rw [(tracks_of_run h.snd).removed_iff, Ended]
  constructor
  · intro hremoved hreported
    exact hremoved (.inl hreported)
  · rintro hended (hreported | heof)
    · exact hended hreported
    · exact .inr heof

end Watch

/-- What leads the loop to `connectEstablished`, and back to `epoll_wait`. -/
def register : List (Option (EventLoop.Event ℕ) × Option Event) :=
  [(some .loop, none), (some .loop, none), (some .loop, none), (some (.queue 1 7), some .submit),
    (some (.wake 1), none), (some (.poll [] [] true), some (.poll .skip)), (some .loop, none),
    (some .loop, none), (some .loop, none), (some .loop, none),
    (some .loop, some (.establish false)), (some .ownReturn, none), (some .loop, none),
    (some .loop, none), (some .loop, none)]

/-- What leads the loop from the last callback back to `epoll_wait`. -/
def finish : List (Option (EventLoop.Event ℕ) × Option Event) :=
  List.replicate 6 (some .loop, none)

/-- A peer that hangs up while the application keeps a copy of the pointer. -/
theorem removed_when_dead_iff_hung_up : ∃ shown p,
    (watch 0 (some 7) device).Run shown p ∧ p.1.pc = .wait ∧ p.2.edge = false ∧
      Reported (System.rights shown) ∧ Removed p.2.current := by
  have hfinal : ∃ p shown, (watch 0 (some 7) device).exec
      (watch 0 (some 7) device).init (register ++
        [(none, some .edge), (some (.poll [0] [] false), some (.poll (.report EPOLLIN))),
          (some .loop, some .enter), (none, some (.read (.data ⟨[104], by simp, by simp⟩ 1))),
          (none, some (.read (.failed EAGAIN))), (some .ownReturn, some .leave)] ++ finish ++
        [(none, some .edge), (some (.poll [0] [] false), some (.poll (.report EPOLLHUP))),
          (some .loop, some .enter), (some .ownReturn, some .leave)] ++ finish) =
            some (p, shown) ∧
      p.1.pc = .wait ∧ p.2.edge = false ∧
        masks (System.rights shown) = [EPOLLIN, EPOLLHUP] := ⟨_, _, rfl, rfl, rfl, rfl⟩
  obtain ⟨p, shown, hexec, hpc, hedge, hmasks⟩ := hfinal
  have hrun := System.Run.of_exec _ hexec
  have hmem : EPOLLHUP ∈ masks (System.rights shown) := by simp [hmasks]
  have hreported : Reported (System.rights shown) := ⟨_, hmem, by decide⟩
  exact ⟨shown, p, hrun, hpc, hedge, hreported,
    (removed_when_dead_iff hrun).mpr (fun _ => .inl ⟨_, hmem, by decide⟩) (.inl hreported)⟩

/-- A peer resets its connection. The mask has input, a hang-up and an error; the error is logged,
and the connection is kept. -/
theorem kept_on_reset : ∃ shown p,
    (watch 0 (some 7) device).Run shown p ∧ p.1.pc = .wait ∧ p.2.edge = false ∧
      Reported (System.rights shown) ∧ ¬Removed p.2.current := by
  have hfinal : ∃ p shown,
      (watch 0 (some 7) device).exec (watch 0 (some 7) device).init (register ++
        [(none, some .edge), (some (.poll [0] [] false),
            some (.poll (.report (EPOLLIN ||| EPOLLERR ||| EPOLLHUP)))),
          (some .loop, some .enter), (some .ownReturn, some .leave)] ++ finish) =
            some (p, shown) ∧
      p.1.pc = .wait ∧ p.2.edge = false ∧
        masks (System.rights shown) = [EPOLLIN ||| EPOLLERR ||| EPOLLHUP] ∧
          p.2.current.inMap = true := ⟨_, _, rfl, rfl, rfl, rfl, rfl⟩
  obtain ⟨p, shown, hexec, hpc, hedge, hmasks, hmap⟩ := hfinal
  have hmem : EPOLLIN ||| EPOLLERR ||| EPOLLHUP ∈ masks (System.rights shown) := by simp [hmasks]
  refine ⟨shown, p, .of_exec _ hexec, hpc, hedge, ⟨_, hmem, by decide⟩, fun hremoved => ?_⟩
  rw [hremoved.1] at hmap
  cases hmap

end ClwServer.TcpConnection
