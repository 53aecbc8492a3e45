import ClwServer.Net.Epoll.ChannelMap

/-!
# Registered channels

`ChannelMap` has the channels that epoll listens to. It gets its entry before `epoll_ctl` is
called, and keeps it when the call fails.
-/

namespace ClwServer.ChannelMap

/-- What a successful `epoll_ctl` asks of the interest list. No descriptor is closed while it is
registered. -/
def Strict (fd_ : Ptr → ℤ) (s : State) : Event → Prop
  | .epollAdd channel ok => ok = true → (s.interest (fd_ channel)).isSome = false
  | .epollMod channel ok | .epollDel channel ok => ok = true → (s.interest (fd_ channel)).isSome
  | .close fd => (s.interest fd).isSome = false
  | .setEvents .. | .epollWait _ => True

instance (fd_ : Ptr → ℤ) (s : State) : ∀ e : Event, Decidable (Strict fd_ s e)
  | .epollAdd channel ok =>
    inferInstanceAs (Decidable (ok = true → (s.interest (fd_ channel)).isSome = false))
  | .epollMod channel ok | .epollDel channel ok =>
    inferInstanceAs (Decidable (ok = true → (s.interest (fd_ channel)).isSome))
  | .close fd => inferInstanceAs (Decidable ((s.interest fd).isSome = false))
  | .setEvents .. | .epollWait _ => inferInstanceAs (Decidable True)

def strict (fd_ : Ptr → ℤ) : System State Event Obs := (system fd_).restrict (Strict fd_)

/-- The channel of a call in which `epoll_ctl` fails to register it. -/
def Event.failing : Event → Option Ptr
  | .epollAdd channel false | .epollMod channel false => some channel
  | _ => none

/-- A failed registration leaves no trace. -/
def NoTrace (s : State) (e : Event) (t : State) : Prop :=
  e.failing.isSome → t.channelMap = s.channelMap

/-- The keys of the map are the descriptors that are registered. -/
def Registered (s : State) : Prop := ∀ fd, (s.channelMap fd).isSome = (s.interest fd).isSome

/-- A registration that fails is one of a channel which already stands under its descriptor. -/
def Own (fd_ : Ptr → ℤ) (s : State) (e : Event) (_ : State) : Prop :=
  ∀ channel, e.failing = some channel → s.channelMap (fd_ channel) = some (some channel)

variable {fd_ : Ptr → ℤ} {s t : State}

lemma setChannel_failed (op : Op) (channel : Ptr) :
    setChannel fd_ op channel false s =
      { s with channelMap := Function.update s.channelMap (fd_ channel) (some (some channel)) } :=
  rfl

lemma channelMap_setChannel_failed (op : Op) (channel : Ptr) :
    (setChannel fd_ op channel false s).channelMap = s.channelMap ↔
      s.channelMap (fd_ channel) = some (some channel) := by
  rw [setChannel_failed]
  constructor
  · intro h
    rw [← h]
    exact Function.update_self ..
  · intro h
    exact Function.update_eq_self_iff.mpr h.symm

/-- A step with a failing registration is that registration. -/
lemma step_failing {e : Event} {o : List Obs} (he : (strict fd_).step s e = some (t, o))
    {channel : Ptr} (hfail : e.failing = some channel) :
    ∃ op, t = setChannel fd_ op channel false s := by
  obtain ⟨-, he⟩ := System.restrict_step.mp he
  cases e with
  | epollAdd c ok =>
    cases ok with
    | true => cases hfail
    | false =>
      cases hfail
      cases he
      exact ⟨.EPOLL_CTL_ADD, rfl⟩
  | epollMod c ok =>
    cases ok with
    | true => cases hfail
    | false =>
      cases hfail
      cases he
      exact ⟨.EPOLL_CTL_MOD, rfl⟩
  | setEvents | epollDel | close | epollWait => cases hfail

lemma noTrace_iff {e : Event} {o : List Obs} (he : (strict fd_).step s e = some (t, o)) :
    NoTrace s e t ↔ Own fd_ s e t := by
  cases hfail : e.failing with
  | none => simp [NoTrace, Own, hfail]
  | some channel =>
    obtain ⟨op, rfl⟩ := step_failing he hfail
    simpa [NoTrace, Own, hfail] using channelMap_setChannel_failed op channel

/-! ### Successful calls -/

lemma registered_init : Registered init := fun _ => rfl

lemma Registered.update (h : Registered s) {fd : ℤ} {p : Option (Option Ptr)}
    {ev : Option EpollEvent} (hp : p.isSome = ev.isSome) :
    Registered { s with channelMap := Function.update s.channelMap fd p
                        interest := Function.update s.interest fd ev } := by
  intro fd'
  by_cases hfd : fd' = fd
  · subst hfd
    simpa using hp
  · simpa [Function.update_of_ne hfd] using h fd'

lemma Registered.setChannel (h : Registered s) (op : Op) (channel : Ptr)
    (hop : op ≠ .EPOLL_CTL_DEL) : Registered (setChannel fd_ op channel true s) := by
  cases op with
  | EPOLL_CTL_ADD | EPOLL_CTL_MOD => exact h.update rfl
  | EPOLL_CTL_DEL => exact absurd rfl hop

/-- A failing `epoll_del` finds nothing in the interest list, and so nothing in the map. -/
lemma Registered.epollDel (h : Registered s) {channel : Ptr} {ok : Bool}
    (hkernel : ok = false → s.interest (fd_ channel) = none) :
    Registered (epollDel fd_ channel ok s) := by
  have hdel : Registered { s with
      channelMap := Function.update s.channelMap (fd_ channel) none
      interest := Function.update s.interest (fd_ channel) none } := h.update rfl
  cases ok with
  | true => exact hdel
  | false =>
    rw [← hkernel rfl, Function.update_eq_self] at hdel
    exact hdel

lemma Registered.close (h : Registered s) {fd : ℤ} (hfd : (s.interest fd).isSome = false) :
    Registered { s with interest := Function.update s.interest fd none } := by
  rw [Option.isSome_eq_false_iff, Option.isNone_iff_eq_none] at hfd
  rw [← hfd, Function.update_eq_self]
  exact h

lemma Inv.epollWait_kept {obs : List Obs} (hi : Inv fd_ obs s)
    {answer : Except Posix.Errno (List (ℤ × Posix.Events))}
    (hreports : ∀ ready, answer = .ok ready → Reports s ready)
    (ht : ChannelMap.epollWait answer s = .ok t) :
    t.channelMap = s.channelMap ∧ t.interest = s.interest := by
  rcases answer with e | _ | ⟨r, ready⟩
  · cases ht
    exact ⟨rfl, rfl⟩
  · cases ht
    exact ⟨rfl, rfl⟩
  · obtain ⟨u, hu, hdelivered⟩ := hi.epollWait (List.cons_ne_nil r ready) (hreports _ rfl)
    cases hu.symm.trans ht
    exact hdelivered.kept

/-! ### Runs -/

/-- A step keeps the two together, where a failing registration changes nothing. -/
lemma Registered.step {obs o : List Obs} (hi : Inv fd_ obs s) (h : Registered s) {e : Event}
    (he : (strict fd_).step s e = some (t, o)) (hown : Own fd_ s e t) : Registered t := by
  cases hfail : e.failing with
  | some channel =>
    obtain ⟨op, rfl⟩ := step_failing he hfail
    have hmap := (channelMap_setChannel_failed op channel).mpr (hown channel hfail)
    intro fd
    rw [hmap]
    exact h fd
  | none =>
    obtain ⟨hstrict, he⟩ := System.restrict_step.mp he
    simp only [system] at he
    split at he
    · rename_i hkernel
      cases e with
      | setEvents channel events =>
        cases he
        exact h
      | epollAdd channel ok =>
        cases ok with
        | false => cases hfail
        | true =>
          cases he
          exact h.setChannel .EPOLL_CTL_ADD channel (by decide)
      | epollMod channel ok =>
        cases ok with
        | false => cases hfail
        | true =>
          cases he
          exact h.setChannel .EPOLL_CTL_MOD channel (by decide)
      | epollDel channel ok =>
        cases he
        exact h.epollDel hkernel
      | close fd =>
        cases he
        exact h.close hstrict
      | epollWait answer =>
        cases ht : epollWait answer s with
        | error f => simp [exec, ht, Except.map, Except.toOption] at he
        | ok u =>
          simp only [exec, ht] at he
          cases he
          obtain ⟨hmap, hinterest⟩ := hi.epollWait_kept
            (fun ready hready => by subst hready; exact hkernel) ht
          intro fd
          rw [hmap, hinterest]
          exact h fd
    · cases he

/-- A failed `epoll_add` or `epoll_mod` leaves the map as it was exactly where the map already has
the channel under its descriptor. A sequence of calls and of events, in which no descriptor is
closed while it is registered, leaves no trace of a failure and keeps the keys of the map equal to
the registered descriptors if and only if every failing registration is of this kind. -/
theorem noTrace_registered_iff (fd_ : Ptr → ℤ) :
    (∀ s channel, (epollAdd fd_ channel false s).channelMap = s.channelMap ↔
      s.channelMap (fd_ channel) = some (some channel)) ∧
    (∀ s channel, (epollMod fd_ channel false s).channelMap = s.channelMap ↔
      s.channelMap (fd_ channel) = some (some channel)) ∧
    ∀ es, ((strict fd_).AtSteps NoTrace init es ∧ (strict fd_).AtStates Registered init es) ↔
      (strict fd_).AtSteps (Own fd_) init es := by
  refine ⟨fun s channel => channelMap_setChannel_failed .EPOLL_CTL_ADD channel,
    fun s channel => channelMap_setChannel_failed .EPOLL_CTL_MOD channel, fun es => ⟨?_, ?_⟩⟩
  · rintro ⟨htrace, -⟩ pre e post s obs t o hes hpre he
    exact (noTrace_iff he).mp (htrace pre e post s obs t o hes hpre he)
  · intro hown
    have hstates := hown.invariant (Q := fun s => (∃ obs, Inv fd_ obs s) ∧ Registered s)
      ⟨⟨[], inv_init⟩, registered_init⟩ fun s e t o ⟨⟨obs, hi⟩, hreg⟩ he hstep =>
        ⟨⟨obs ++ o, hi.step (System.restrict_step.mp he).2⟩, hreg.step hi he hstep⟩
    refine ⟨hown.imp hstates fun s e t o _ he hstep => (noTrace_iff he).mpr hstep, ?_⟩
    intro pre post s obs hes hpre
    exact (hstates pre post s obs hes hpre).2

/-- The descriptor of the channel is -1, as when `accept` has failed: the call fails, and the key
stays. -/
theorem epollAdd_failed_leaves_trace : ∃ s t o,
    (system fun _ => -1).Reachable s ∧
      (strict fun _ => -1).exec init [.epollAdd 1 false] = some (t, o) ∧
      s = init ∧ t = epollAdd (fun _ => -1) 1 false s ∧ t.channelMap ≠ s.channelMap ∧
      (t.channelMap (-1)).isSome ∧ t.interest (-1) = none := by
  refine ⟨init, _, _, ⟨[], System.Run.init⟩, rfl, rfl, rfl, ?_, rfl, rfl⟩
  intro h
  exact absurd (congrFun h (-1)) (by simp [init, epollAdd, setChannel, epollCtl])

end ClwServer.ChannelMap
