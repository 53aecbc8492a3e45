import ClwServer.Core.Cpp
import ClwServer.Core.Posix
import ClwServer.Core.System
import Mathlib.Data.List.Forall2
import Mathlib.Logic.Function.Basic

/-!
# The channels of epoll

The functions of `Epoll.cc`, for the part of an `Epoll` that says which channel gets an event:
`ChannelMap`, and the interest list of the kernel. The two are set by different statements, and
`epoll_ctl` may fail in between; the kernel alone forgets a descriptor that is closed. What is
asked of the kernel is the guard of a step.
-/

namespace ClwServer.ChannelMap

open Cpp Posix

/-- A channel is told apart by its address. -/
abbrev Ptr := ℕ

/-- `struct epoll_event`, with the `fd` of its `data`. -/
structure EpollEvent where
  events : Events
  fd : ℤ
  deriving DecidableEq

structure State where
  /-- The keys of the map, and the pointers behind them. -/
  channelMap : ℤ → Option (Option Ptr)
  events_ : Ptr → Events
  revents_ : Ptr → Events
  activeChannels : List Ptr
  /-- The interest list. -/
  interest : ℤ → Option EpollEvent

def init : State where
  channelMap := fun _ => none
  events_ := fun _ => 0
  revents_ := fun _ => 0
  activeChannels := []
  interest := fun _ => none

/-- The calls that set an entry of the map and those that take it out. -/
inductive Obs
  /-- `epoll_add` or `epoll_mod` of `channel`. -/
  | set (fd : ℤ) (channel : Ptr)
  | del (fd : ℤ)
  deriving DecidableEq

inductive Op
  | EPOLL_CTL_ADD
  | EPOLL_CTL_MOD
  | EPOLL_CTL_DEL
  deriving DecidableEq

/-- `::epoll_ctl(epollfd_, op, fd, &ev)`, which succeeds or not. -/
def epollCtl (op : Op) (fd : ℤ) (ev : EpollEvent) (ok : Bool) (s : State) : State :=
  match ok, op with
  | false, _ => s
  | true, .EPOLL_CTL_DEL => { s with interest := Function.update s.interest fd none }
  | true, _ => { s with interest := Function.update s.interest fd (some ev) }

section Members

variable (fd_ : Ptr → ℤ)

/-- The body of `epoll_add` and `epoll_mod`. -/
def setChannel (op : Op) (channel : Ptr) (ok : Bool) (s : State) : State :=
  let fd := fd_ channel
  let ev := ⟨s.events_ channel ||| EPOLLET, fd⟩
  epollCtl op fd ev ok
    { s with channelMap := Function.update s.channelMap fd (some (some channel)) }

def epollAdd : Ptr → Bool → State → State := setChannel fd_ .EPOLL_CTL_ADD

def epollMod : Ptr → Bool → State → State := setChannel fd_ .EPOLL_CTL_MOD

def epollDel (channel : Ptr) (ok : Bool) (s : State) : State :=
  let fd := fd_ channel
  let s := epollCtl .EPOLL_CTL_DEL fd ⟨0, 0⟩ ok s
  { s with channelMap := Function.update s.channelMap fd none }

end Members

/-- `ChannelMap[fd]`: a key that is missing is put in, with a null pointer. -/
def lookup (fd : ℤ) (s : State) : State × Option Ptr :=
  match s.channelMap fd with
  | some p => (s, p)
  | none => ({ s with channelMap := Function.update s.channelMap fd (some none) }, none)

/-- One turn of the loop over the events. -/
def deliver (s : State) (ev : EpollEvent) : Except Fault State := do
  let (s, temp_channel) := lookup ev.fd s
  let channel ← deref temp_channel
  .ok { s with revents_ := Function.update s.revents_ channel ev.events
               activeChannels := s.activeChannels ++ [channel] }

/-- What the kernel puts into `ActiveEvents`: for each descriptor that is ready, its entry with the
events that have come. -/
def activeEvents (ready : List (ℤ × Events)) (s : State) : List EpollEvent :=
  ready.filterMap fun r => (s.interest r.1).map fun ev => { ev with events := r.2 }

/-- `epoll_wait(timeout, ActiveChannels)`, with what `::epoll_wait` answers. -/
def epollWait (answer : Except Errno (List (ℤ × Events))) (s : State) : Except Fault State :=
  match answer with
  | .error _ | .ok [] => .ok s
  | .ok ready => (activeEvents ready s).foldlM deliver { s with activeChannels := [] }

lemma epollWait_of_ne_nil {ready : List (ℤ × Events)} {s : State} (h : ready ≠ []) :
    epollWait (.ok ready) s =
      (activeEvents ready s).foldlM deliver { s with activeChannels := [] } := by
  cases ready with
  | nil => exact absurd rfl h
  | cons => rfl

/-! ### The system -/

inductive Event
  | setEvents (channel : Ptr) (events : Events)
  | epollAdd (channel : Ptr) (ok : Bool)
  | epollMod (channel : Ptr) (ok : Bool)
  | epollDel (channel : Ptr) (ok : Bool)
  /-- The descriptor `fd` is closed. -/
  | close (fd : ℤ)
  | epollWait (answer : Except Errno (List (ℤ × Events)))

/-- The kernel reports entries of the interest list. -/
def Reports (s : State) (ready : List (ℤ × Events)) : Prop :=
  ∀ r ∈ ready, (s.interest r.1).isSome

instance (s : State) (ready : List (ℤ × Events)) : Decidable (Reports s ready) :=
  inferInstanceAs (Decidable (∀ r ∈ ready, _))

variable (fd_ : Ptr → ℤ)

/-- What the kernel may do: `EPOLL_CTL_DEL` fails only for what is not registered. -/
def Kernel (s : State) : Event → Prop
  | .epollDel channel ok => ok = false → s.interest (fd_ channel) = none
  | .epollWait (.ok ready) => Reports s ready
  | _ => True

instance (s : State) : ∀ e : Event, Decidable (Kernel fd_ s e)
  | .epollDel channel ok =>
    inferInstanceAs (Decidable (ok = false → s.interest (fd_ channel) = none))
  | .epollWait (.ok ready) => inferInstanceAs (Decidable (Reports s ready))
  | .setEvents .. | .epollAdd .. | .epollMod .. | .close _ | .epollWait (.error _) =>
    inferInstanceAs (Decidable True)

/-- What a step does, and which call is seen. -/
def exec (s : State) : Event → Except Fault (State × List Obs)
  | .setEvents channel events =>
    .ok ({ s with events_ := Function.update s.events_ channel events }, [])
  | .epollAdd channel ok => .ok (epollAdd fd_ channel ok s, [.set (fd_ channel) channel])
  | .epollMod channel ok => .ok (epollMod fd_ channel ok s, [.set (fd_ channel) channel])
  | .epollDel channel ok => .ok (epollDel fd_ channel ok s, [.del (fd_ channel)])
  | .close fd => .ok ({ s with interest := Function.update s.interest fd none }, [])
  | .epollWait answer => (epollWait answer s).map (·, [])

/-- One `Epoll` and the kernel, for channels whose descriptors are `fd_`. -/
def system : System State Event Obs where
  init := init
  step s e := if Kernel fd_ s e then (exec fd_ s e).toOption else none

/-- The channel of the last `epoll_add` or `epoll_mod` for `fd`, unless an `epoll_del` of `fd`
has followed it. -/
def owner (obs : List Obs) (fd : ℤ) : Option Ptr :=
  obs.foldl (fun c o => match o with
    | .set fd' channel => if fd' = fd then some channel else c
    | .del fd' => if fd' = fd then none else c) none

lemma owner_append (obs : List Obs) (o : Obs) (fd : ℤ) : owner (obs ++ [o]) fd = match o with
    | .set fd' channel => if fd' = fd then some channel else owner obs fd
    | .del fd' => if fd' = fd then none else owner obs fd :=
  List.foldl_append

/-! ### The invariant -/

structure Inv (obs : List Obs) (s : State) : Prop where
  /-- The map has the owners, and no null pointer. -/
  map : ∀ fd, s.channelMap fd = (owner obs fd).map some
  fd : ∀ fd channel, owner obs fd = some channel → fd_ channel = fd
  /-- What the kernel may report has an owner. -/
  entry : ∀ fd ev, s.interest fd = some ev → ev.fd = fd ∧ (owner obs fd).isSome

variable {fd_} {obs : List Obs} {s t : State}

lemma inv_init : Inv fd_ [] init where
  map := fun _ => rfl
  fd := by simp [owner]
  entry := by simp [init]

/-- What a call of `epoll_ctl` does for other descriptors, and for its own. -/
lemma interest_epollCtl {op : Op} {fd fd' : ℤ} {ev ev' : EpollEvent} {ok : Bool}
    (h : (epollCtl op fd ev ok s).interest fd' = some ev') :
    s.interest fd' = some ev' ∨ fd' = fd ∧ ev' = ev := by
  by_cases hfd : fd' = fd
  · subst hfd
    cases ok <;> cases op <;> simp_all [epollCtl, eq_comm]
  · cases ok <;> cases op <;> simp_all [epollCtl, Function.update_of_ne]

@[simp] lemma channelMap_epollCtl (op : Op) (fd : ℤ) (ev : EpollEvent) (ok : Bool) :
    (epollCtl op fd ev ok s).channelMap = s.channelMap := by
  cases ok <;> cases op <;> rfl

/-- The map gets its entry whether `epoll_ctl` succeeds or not. -/
lemma Inv.setChannel (hi : Inv fd_ obs s) (op : Op) (channel : Ptr) (ok : Bool) :
    Inv fd_ (obs ++ [.set (fd_ channel) channel]) (setChannel fd_ op channel ok s) where
  map := by
    intro fd
    rw [ChannelMap.setChannel, channelMap_epollCtl, owner_append]
    by_cases hfd : fd_ channel = fd
    · subst hfd
      simp
    · simpa [hfd, Function.update_of_ne (Ne.symm hfd)] using hi.map fd
  fd := by
    intro fd c hc
    rw [owner_append] at hc
    by_cases hfd : fd_ channel = fd
    · simp only [hfd, if_true, Option.some.injEq] at hc
      rw [← hc, hfd]
    · simp only [hfd, if_false] at hc
      exact hi.fd fd c hc
  entry := by
    intro fd ev hev
    rw [owner_append]
    rcases interest_epollCtl hev with hold | ⟨rfl, rfl⟩
    · obtain ⟨hdata, howner⟩ := hi.entry fd ev hold
      refine ⟨hdata, ?_⟩
      by_cases hfd : fd_ channel = fd <;> simp [hfd, howner]
    · simp

/-- Behind `epoll_del` the kernel does not know the descriptor. -/
lemma Inv.epollDel (hi : Inv fd_ obs s) {channel : Ptr} {ok : Bool}
    (hkernel : ok = false → s.interest (fd_ channel) = none) :
    Inv fd_ (obs ++ [.del (fd_ channel)]) (epollDel fd_ channel ok s) where
  map := by
    intro fd
    rw [owner_append]
    by_cases hfd : fd_ channel = fd
    · subst hfd
      simp [ChannelMap.epollDel]
    · simpa [ChannelMap.epollDel, hfd, Function.update_of_ne (Ne.symm hfd)] using hi.map fd
  fd := by
    intro fd c hc
    rw [owner_append] at hc
    by_cases hfd : fd_ channel = fd
    · simp [hfd] at hc
    · simp only [hfd, if_false] at hc
      exact hi.fd fd c hc
  entry := by
    intro fd ev hev
    rw [owner_append]
    by_cases hfd : fd_ channel = fd
    · subst hfd
      cases ok with
      | false => exact absurd hev (by simp [ChannelMap.epollDel, epollCtl, hkernel rfl])
      | true => simp [ChannelMap.epollDel, epollCtl] at hev
    · have hold : s.interest fd = some ev := by
        cases ok <;> simpa [ChannelMap.epollDel, epollCtl, Function.update_of_ne (Ne.symm hfd)]
          using hev
      simpa [hfd] using hi.entry fd ev hold

lemma Inv.close (hi : Inv fd_ obs s) (fd : ℤ) :
    Inv fd_ obs { s with interest := Function.update s.interest fd none } where
  map := hi.map
  fd := hi.fd
  entry := by
    intro fd' ev hev
    by_cases hfd : fd' = fd
    · subst hfd
      simp at hev
    · exact hi.entry fd' ev (by simpa [Function.update_of_ne hfd] using hev)

/-! ### The loop over the events -/

lemma deliver_of_some {ev : EpollEvent} {channel : Ptr}
    (h : s.channelMap ev.fd = some (some channel)) : deliver s ev =
      .ok { s with revents_ := Function.update s.revents_ channel ev.events
                   activeChannels := s.activeChannels ++ [channel] } := by
  rw [deliver, lookup, h]
  rfl

/-- Where each event finds its channel, a channel gets the mask of its last event. -/
lemma foldlM_deliver {evs : List EpollEvent} {channels : List Ptr}
    (h : List.Forall₂ (fun ev c => s.channelMap ev.fd = some (some c)) evs channels) :
    ∃ revents_,
      evs.foldlM deliver s = .ok { s with revents_ := revents_
                                          activeChannels := s.activeChannels ++ channels } ∧
      (∀ c, (∀ ev ∈ evs, s.channelMap ev.fd ≠ some (some c)) → revents_ c = s.revents_ c) ∧
      ∀ pre ev post c, evs = pre ++ ev :: post → s.channelMap ev.fd = some (some c) →
        (∀ ev' ∈ post, s.channelMap ev'.fd ≠ some (some c)) → revents_ c = ev.events := by
  induction evs generalizing s channels with
  | nil =>
    cases h
    exact ⟨s.revents_, by rw [List.append_nil]; rfl, fun _ _ => rfl, by simp⟩
  | cons ev evs ih =>
    obtain _ | ⟨hc, h⟩ := h
    rename_i c channels
    obtain ⟨revents_, hfold, hother, hlast⟩ := ih
      (s := { s with revents_ := Function.update s.revents_ c ev.events
                     activeChannels := s.activeChannels ++ [c] }) h
    refine ⟨revents_, ?_, ?_, ?_⟩
    · rw [List.foldlM_cons, deliver_of_some hc, ok_bind, hfold]
      simp
    · intro d hd
      have hne : d ≠ c := by
        rintro rfl
        exact hd ev (List.mem_cons_self ..) hc
      exact (hother d fun ev' hev' => hd ev' (List.mem_cons_of_mem _ hev')).trans
        (Function.update_of_ne hne ..)
    · rintro (_ | ⟨ev', pre⟩) ev'' post d hevs hd hpost
      · -- the mask stays until the end
        cases hevs
        obtain rfl : c = d := Option.some.inj (Option.some.inj (hc.symm.trans hd))
        exact (hother c hpost).trans (Function.update_self ..)
      · cases hevs
        exact hlast pre ev'' post d rfl hd hpost

lemma Inv.activeEvents_eq (hi : Inv fd_ obs s) {ready : List (ℤ × Events)}
    (h : Reports s ready) : activeEvents ready s = ready.map fun r => ⟨r.2, r.1⟩ := by
  rw [activeEvents, ← List.filterMap_eq_map]
  refine List.filterMap_congr fun r hr => ?_
  obtain ⟨ev, hev⟩ := Option.isSome_iff_exists.mp (h r hr)
  rw [hev, Option.map_some, (hi.entry r.1 ev hev).1]
  rfl

/-- The channels of what is reported. -/
lemma Inv.exists_channels (hi : Inv fd_ obs s) {ready : List (ℤ × Events)}
    (h : Reports s ready) : ∃ channels,
      List.Forall₂ (fun r c => owner obs r.1 = some c) ready channels := by
  induction ready with
  | nil => exact ⟨[], .nil⟩
  | cons r ready ih =>
    obtain ⟨channels, hchannels⟩ := ih fun x hx => h x (List.mem_cons_of_mem _ hx)
    obtain ⟨ev, hev⟩ := Option.isSome_iff_exists.mp (h r (List.mem_cons_self ..))
    obtain ⟨c, hc⟩ := Option.isSome_iff_exists.mp (hi.entry r.1 ev hev).2
    exact ⟨c :: channels, .cons hc hchannels⟩

/-- What `epoll_wait` leaves in `ActiveChannels`, and in the `revents_` of each channel. -/
structure Delivered (obs : List Obs) (s : State) (ready : List (ℤ × Events)) (t : State) :
    Prop where
  entry : ∀ r ∈ ready, ∃ c, owner obs r.1 = some c ∧ s.channelMap r.1 = some (some c)
  active : t.activeChannels.map some = ready.map fun r => owner obs r.1
  /-- A channel has the mask of its event; of the last one, if its descriptor is reported again. -/
  revents : ∀ pre r post, ready = pre ++ r :: post → (∀ r' ∈ post, r'.1 ≠ r.1) →
    ∀ c, owner obs r.1 = some c → t.revents_ c = r.2
  /-- The map gets no new key. -/
  kept : t.channelMap = s.channelMap ∧ t.interest = s.interest

lemma Inv.channelMap_eq (hi : Inv fd_ obs s) {fd : ℤ} {c : Ptr} :
    s.channelMap fd = some (some c) ↔ owner obs fd = some c := by
  rw [hi.map]
  cases owner obs fd <;> simp

lemma Inv.epollWait (hi : Inv fd_ obs s) {ready : List (ℤ × Events)} (hne : ready ≠ [])
    (h : Reports s ready) : ∃ t, epollWait (.ok ready) s = .ok t ∧ Delivered obs s ready t := by
  obtain ⟨channels, hchannels⟩ := hi.exists_channels h
  have hfound : List.Forall₂ (fun ev c => s.channelMap ev.fd = some (some c))
      (activeEvents ready s) channels := by
    rw [hi.activeEvents_eq h, List.forall₂_map_left_iff]
    exact hchannels.imp fun r c hc => hi.channelMap_eq.mpr hc
  obtain ⟨revents_, hfold, -, hlast⟩ :=
    foldlM_deliver (s := { s with activeChannels := [] }) hfound
  have howners : ready.map (fun r => owner obs r.1) = channels.map some := by
    have hforall := List.forall₂_map_right_iff.mpr (List.forall₂_map_left_iff.mpr hchannels)
    rwa [List.forall₂_eq_eq_eq] at hforall
  refine ⟨_, (epollWait_of_ne_nil hne).trans hfold, fun r hr => ?_, howners.symm, ?_, rfl, rfl⟩
  · obtain ⟨ev, hev⟩ := Option.isSome_iff_exists.mp (h r hr)
    obtain ⟨c, hc⟩ := Option.isSome_iff_exists.mp (hi.entry r.1 ev hev).2
    exact ⟨c, hc, hi.channelMap_eq.mpr hc⟩
  · rintro pre r post rfl hpost c hc
    rw [hi.activeEvents_eq h, List.map_append, List.map_cons] at hlast
    refine hlast _ _ _ c rfl (hi.channelMap_eq.mpr hc) ?_
    -- another descriptor has another channel
    simp only [List.forall_mem_map]
    intro r' hr' hmap
    have hfd := hi.fd _ _ (hi.channelMap_eq.mp hmap)
    exact hpost r' hr' (hfd.symm.trans (hi.fd _ _ hc))

/-! ### Runs -/

lemma Inv.step (hi : Inv fd_ obs s) {e : Event} {o : List Obs}
    (h : (system fd_).step s e = some (t, o)) : Inv fd_ (obs ++ o) t := by
  simp only [system] at h
  split at h
  · rename_i hkernel
    cases e with
    | setEvents =>
      cases h
      rw [List.append_nil]
      exact ⟨hi.map, hi.fd, hi.entry⟩
    | epollAdd channel ok =>
      cases h
      exact hi.setChannel .EPOLL_CTL_ADD channel ok
    | epollMod channel ok =>
      cases h
      exact hi.setChannel .EPOLL_CTL_MOD channel ok
    | epollDel channel ok =>
      cases h
      exact hi.epollDel hkernel
    | close fd =>
      cases h
      rw [List.append_nil]
      exact hi.close fd
    | epollWait answer =>
      rcases answer with e | ready
      · cases h
        rw [List.append_nil]
        exact hi
      · by_cases hne : ready = []
        · subst hne
          cases h
          rw [List.append_nil]
          exact hi
        · obtain ⟨u, hu, hdelivered⟩ := hi.epollWait hne hkernel
          simp only [exec, hu] at h
          cases h
          rw [List.append_nil]
          refine ⟨?_, hi.fd, ?_⟩
          · rw [hdelivered.kept.1]
            exact hi.map
          · rw [hdelivered.kept.2]
            exact hi.entry
  · cases h

lemma inv_of_run (h : (system fd_).Run obs s) : Inv fd_ obs s :=
  h.invariant (P := Inv fd_) inv_init fun _ _ _ _ _ _ hi he => hi.step he

/-- In every run, `epoll_wait` finds the channel of every event, and gives each its own. -/
theorem epollWait_delivers (h : (system fd_).Run obs s) {ready : List (ℤ × Events)}
    (hne : ready ≠ []) (hreports : Reports s ready) :
    ∃ t, epollWait (.ok ready) s = .ok t ∧ Delivered obs s ready t :=
  (inv_of_run h).epollWait hne hreports

/-- The descriptor 5 is closed and used again by another channel. -/
theorem epollWait_delivers_reused : ∃ obs s t,
    (system fun c => if c = 3 then 8 else 5).Run obs s ∧ owner obs 5 = some 2 ∧
      epollWait (.ok [(8, EPOLLIN), (5, EPOLLHUP)]) s = .ok t ∧
        Delivered obs s [(8, EPOLLIN), (5, EPOLLHUP)] t := by
  have hrun := System.Run.of_exec (M := system fun c => if c = 3 then 8 else 5)
    [.setEvents 1 EPOLLIN, .epollAdd 1 true, .close 5, .epollAdd 3 true, .epollAdd 2 true,
      .epollMod 3 false] rfl
  have hne : [((8 : ℤ), EPOLLIN), (5, EPOLLHUP)] ≠ [] := by simp
  obtain ⟨t, ht, hdelivered⟩ := epollWait_delivers hrun hne (by decide)
  exact ⟨_, _, t, hrun, rfl, ht, hdelivered⟩

end ClwServer.ChannelMap
