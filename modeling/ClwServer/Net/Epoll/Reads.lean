import ClwServer.Net.Epoll.Basic

/-!
# The reads of the events

One `Epoll` and no other: the calls of `epoll_wait`, one after the other. The elements of
`ActiveEvents` are the buffer of the kernel, and the loop reads them.
-/

namespace ClwServer.Epoll

open Cpp (Extent)

/-- The global and the only object there is, between two calls. -/
structure Sole where
  maxEvents : ℕ
  activeEvents : Extent
  deriving DecidableEq

/-- A use of the vector, which has `size` elements. -/
inductive Access
  /-- `&*ActiveEvents.begin()`, as a buffer for `maxevents` events. -/
  | begin (maxevents size : ℕ)
  /-- `ActiveEvents[i]` -/
  | read (i size : ℕ)
  deriving DecidableEq

def Access.InBounds : Access → Prop
  | .begin maxevents size => maxevents ≤ size
  | .read i size => i < size

/-- What a call uses of the vector. -/
def accesses (s : Sole) (numEvents : ℤ) : List Access :=
  .begin s.maxEvents s.activeEvents.size ::
    (List.range numEvents.toNat).map (.read · s.activeEvents.size)

/-- `epoll_wait`, where `::epoll_wait` returns `numEvents`. -/
def epollWait (numEvents : ℤ) (s : Sole) : Option Sole :=
  if numEvents ≤ 0 then
    some s
  else if numEvents = s.maxEvents then
    if 2 * s.maxEvents ≤ intMax then
      let maxEvents := 2 * s.maxEvents
      some ⟨maxEvents, (s.activeEvents.resize maxEvents).clear⟩
    else
      none
  else
    some { s with activeEvents := s.activeEvents.clear }

/-- The calls of an object that is created where `MAXEVENTS` is `maxEvents`. -/
def sole (maxEvents : ℕ) : System Sole ℤ Access where
  init := ⟨maxEvents, .ofSize maxEvents⟩
  step s numEvents :=
    if numEvents ≤ s.maxEvents then (epollWait numEvents s).map (·, accesses s numEvents) else none

variable {m : ℕ} {s t : Sole} {n : ℤ} {ns : List ℤ} {obs : List Access}

lemma sole_step : (sole m).step s n = some (t, obs) ↔
    n ≤ s.maxEvents ∧ epollWait n s = some t ∧ obs = accesses s n := by
  simp only [sole]
  by_cases hle : n ≤ s.maxEvents
  · cases epollWait n s <;> simp [hle, eq_comm]
  · simp [hle]

/-- Without events nothing is changed. -/
lemma epollWait_of_nonpos (h : n ≤ 0) : epollWait n s = some s := if_pos h

/-- With events the vector is left empty. -/
lemma size_epollWait (hpos : 0 < n) (h : epollWait n s = some t) : t.activeEvents.size = 0 := by
  rw [epollWait, if_neg (by omega)] at h
  split at h
  · split at h
    · cases h
      rfl
    · cases h
  · cases h
    rfl

lemma maxEvents_epollWait (h : epollWait n s = some t) : s.maxEvents ≤ t.maxEvents := by
  rw [epollWait] at h
  split at h
  · cases h
    exact Nat.le_refl _
  · split at h
    · split at h
      · cases h
        show s.maxEvents ≤ 2 * s.maxEvents
        omega
      · cases h
    · cases h
      exact Nat.le_refl _

lemma accesses_inBounds (hsize : s.maxEvents ≤ s.activeEvents.size) (hn : n ≤ s.maxEvents) :
    ∀ a ∈ accesses s n, a.InBounds := by
  intro a ha
  rcases List.mem_cons.mp ha with rfl | ha
  · exact hsize
  · obtain ⟨i, hi, rfl⟩ := List.mem_map.mp ha
    have hlt := List.mem_range.mp hi
    show i < s.activeEvents.size
    omega

/-- Behind a call that got events, the next one gets the address of the first element of an empty
vector. -/
lemma not_inBounds_of_pos {n' : ℤ} (hn : 0 < n) (hle : n ≤ s.maxEvents)
    (hwait : epollWait n s = some t) : ¬∀ a ∈ accesses t n', a.InBounds := by
  intro hall
  have hbegin : t.maxEvents ≤ t.activeEvents.size := by
    apply hall (.begin _ _)
    simp [accesses]
  have hempty := size_epollWait hn hwait
  have hmono := maxEvents_epollWait hwait
  omega

/-- As long as the vector has its elements, it is used within its bounds until the first call
behind one that got events. -/
lemma exec_inBounds_iff (hsize : s.maxEvents ≤ s.activeEvents.size)
    (h : (sole m).exec s ns = some (t, obs)) :
    (∀ a ∈ obs, a.InBounds) ↔ ∀ n ∈ ns.dropLast, n ≤ 0 := by
  induction ns generalizing s obs with
  | nil =>
    cases h
    simp
  | cons n ns ih =>
    obtain ⟨u, o, obs', hstep, hrest, rfl⟩ := System.exec_cons.mp h
    obtain ⟨hle, hwait, rfl⟩ := sole_step.mp hstep
    have hfirst := accesses_inBounds hsize hle
    cases ns with
    | nil =>
      cases hrest
      simpa using hfirst
    | cons n' ns =>
      rw [List.dropLast_cons_cons, List.forall_mem_append, List.forall_mem_cons]
      by_cases hn : n ≤ 0
      · rw [epollWait_of_nonpos hn] at hwait
        cases hwait
        rw [ih hsize hrest]
        exact and_congr_left' (iff_of_true hfirst hn)
      · refine iff_of_false (fun hall => ?_) fun hall => hn hall.1
        obtain ⟨w, o', obs'', hstep', -, rfl⟩ := System.exec_cons.mp hrest
        obtain ⟨-, -, rfl⟩ := sole_step.mp hstep'
        apply not_inBounds_of_pos (by omega) hle hwait
        exact (List.forall_mem_append.mp hall.2).1

/-! ### The cut calls -/

/-- From `u` some steps lead to where the global is `m` and the only object is `i`. -/
def Leads (u : State) (m : ℕ) (i : Instance) : Prop :=
  ∃ obs v, system.Steps u obs v ∧ v.maxEvents = m ∧ v.instances 0 = some i

section Cut

variable {u : State} {i i' : Instance} {m' : ℕ} {w : Extent}

@[simp] lemma instances_setInstance : (setInstance u 0 (some i)).instances 0 = some i := by
  simp [setInstance]

@[simp] lemma maxEvents_setInstance {j : ℕ} {i : Option Instance} :
    (setInstance u j i).maxEvents = u.maxEvents := rfl

lemma Leads.step (h : Leads u m i) (e : Event)
    (he : ∀ v, v.maxEvents = m → v.instances 0 = some i → ∃ o v', system.step v e = some (v', o) ∧
      v'.maxEvents = m' ∧ v'.instances 0 = some i') : Leads u m' i' := by
  obtain ⟨obs, v, hsteps, hmax, hi⟩ := h
  obtain ⟨o, v', hv', hmax', hi'⟩ := he v hmax hi
  exact ⟨obs ++ o, v', hsteps.tail e hv', hmax', hi'⟩

lemma Leads.ret (h : Leads u m ⟨w, .idle⟩) (hn : n ≤ m) : Leads u m ⟨w, afterReturn n⟩ := by
  have hcall : Leads u m ⟨w, .waiting m⟩ := by
    refine h.step (.call 0) ?_
    rintro v rfl hi
    simp [system, Epoll.step, hi]
  refine hcall.step (.ret 0 n) ?_
  intro v hmax hi
  simp [system, Epoll.step, hi, hn, hmax]

lemma Leads.compare {k : ℕ} (h : Leads u m ⟨w, .compare k⟩) :
    Leads u m ⟨w, if k = m then .double else .clear⟩ := by
  refine h.step (.next 0) ?_
  rintro v rfl hi
  simp [system, Epoll.step, hi, next]

lemma Leads.double (h : Leads u m ⟨w, .double⟩) (hle : 2 * m ≤ intMax) :
    Leads u (2 * m) ⟨w, .resize⟩ := by
  refine h.step (.next 0) ?_
  rintro v rfl hi
  refine ⟨[.doubled 0], setInstance { v with maxEvents := 2 * v.maxEvents } 0 (some ⟨w, .resize⟩),
    ?_, rfl, instances_setInstance⟩
  simp [system, Epoll.step, hi, next, hle]

lemma Leads.resize (h : Leads u m ⟨w, .resize⟩) : Leads u m ⟨w.resize m, .clear⟩ := by
  refine h.step (.next 0) ?_
  rintro v rfl hi
  simp [system, Epoll.step, hi, next]

lemma Leads.clear (h : Leads u m ⟨w, .clear⟩) : Leads u m ⟨w.clear, .idle⟩ := by
  refine h.step (.next 0) ?_
  intro v hmax hi
  simp [system, Epoll.step, hi, next, hmax]

/-- The statements of a call, one by one, lead to what the call leaves. -/
lemma Leads.epollWait (h : Leads u s.maxEvents ⟨s.activeEvents, .idle⟩) (hn : n ≤ s.maxEvents)
    (ht : epollWait n s = some t) : Leads u t.maxEvents ⟨t.activeEvents, .idle⟩ := by
  have hret := h.ret hn
  rw [Epoll.epollWait] at ht
  rw [afterReturn] at hret
  split at ht
  · rename_i hnonpos
    cases ht
    rwa [if_pos hnonpos] at hret
  · rename_i hpos
    rw [if_neg hpos] at hret
    have hcompare := hret.compare
    split at ht
    · rename_i hfull
      split at ht
      · rename_i hle
        cases ht
        rw [if_pos (by omega)] at hcompare
        exact (hcompare.double hle).resize.clear
      · cases ht
    · rename_i hfull
      cases ht
      rw [if_neg (by omega)] at hcompare
      exact hcompare.clear

end Cut

/-- The calls of the first object are a run of the cut system. -/
theorem run_of_sole (h : (sole 1024).Run obs s) :
    ∃ obs u, system.Run obs u ∧ u.maxEvents = s.maxEvents ∧
      u.instances 0 = some ⟨s.activeEvents, .idle⟩ := by
  refine h.invariant (P := fun _ s => Leads init s.maxEvents ⟨s.activeEvents, .idle⟩) ?_ ?_
  · exact ⟨_, _, .single (e := .create 0) rfl, rfl, rfl⟩
  · intro _ s n t o _ hs he
    obtain ⟨hle, hwait, -⟩ := sole_step.mp he
    exact hs.epollWait hle hwait

/-! ### Sequences of calls -/

/-- In a sequence of calls all uses of the vector are within its bounds if and only if no call
follows one that got events. -/
theorem accesses_inBounds_iff (h : (sole m).exec (sole m).init ns = some (s, obs)) :
    (∀ a ∈ obs, a.InBounds) ↔ ∀ n ∈ ns.dropLast, n ≤ 0 :=
  exec_inBounds_iff (Nat.le_refl m) h

/-- A timeout, an error, and one event. -/
theorem accesses_inBounds_iff_first : ∃ s obs,
    (sole 1024).exec (sole 1024).init [0, -1, 1] = some (s, obs) ∧
      ((∀ a ∈ obs, a.InBounds) ↔ ∀ n ∈ ([0, -1, 1] : List ℤ).dropLast, n ≤ 0) ∧
        ∀ n ∈ ([0, -1, 1] : List ℤ).dropLast, n ≤ 0 := by
  have hfinal : ∃ s obs, (sole 1024).exec (sole 1024).init [0, -1, 1] = some (s, obs) :=
    ⟨_, _, rfl⟩
  obtain ⟨s, obs, hexec⟩ := hfinal
  exact ⟨s, obs, hexec, accesses_inBounds_iff hexec, by decide⟩

/-- Two calls get one event each: the second one uses an empty vector. -/
theorem second_wait_out_of_bounds : ∃ s obs,
    (sole 1024).exec (sole 1024).init [1, 1] = some (s, obs) ∧
      .begin 1024 0 ∈ obs ∧ .read 0 0 ∈ obs ∧
        ¬(Access.begin 1024 0).InBounds ∧ ¬(Access.read 0 0).InBounds := by
  refine ⟨_, _, rfl, by decide, by decide, ?_, ?_⟩ <;> simp [Access.InBounds]

end ClwServer.Epoll
