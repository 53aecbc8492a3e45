import ClwServer.Core.System

/-!
# Starting a thread and waiting for it

A starter creates a thread and sleeps on a condition variable until the new thread has set a
condition under the mutex they share. The creation of the thread may fail, the thread may come to
the mutex before or behind the starter, and a sleep may end for no reason. The condition, and
what the threads do around it, are parameters.
-/

/-- What the starter and its thread share, and what they do to it. -/
structure Handshake (σ ε ω β : Type*) where
  /-- Before the thread is created. -/
  init : σ
  /-- The thread is created. -/
  create : σ → σ
  /-- What the thread does before it takes the mutex. -/
  prepare : σ → σ
  /-- What it does under the mutex. -/
  set : σ → σ
  /-- Whether it signals behind that. -/
  notifies : σ → Bool
  /-- The starter waits no longer. -/
  ready : σ → Bool
  /-- What the starter reads behind the wait, to return it. -/
  value : σ → β
  /-- The starter returns. -/
  leave : σ → σ
  /-- What happens once the thread has left its section. -/
  run : σ → ε → Option (σ × List ω)

namespace Handshake

/-- Where the starter is. -/
inductive Starter (β : Type*)
  /-- Before the thread is created. -/
  | creating
  /-- Before it takes the mutex. -/
  | locking
  /-- Before its test, with the mutex. -/
  | testing
  /-- Asleep on the condition variable, without the mutex. -/
  | waiting
  /-- Woken, before it takes the mutex again. -/
  | woken
  /-- Behind its test, with the mutex. -/
  | leaving
  /-- Behind the section, before it reads what it returns. -/
  | returning
  | returned (v : β)

/-- Where the new thread is. -/
inductive Child
  | absent
  /-- Before what it does without the mutex. -/
  | preparing
  /-- Before it takes the mutex. -/
  | locking
  /-- Before it sets the condition, with the mutex. -/
  | setting
  /-- Before the signal, with the mutex. -/
  | notifying
  /-- Behind the signal, with the mutex. -/
  | unlocking
  /-- Behind the section. -/
  | running
  deriving DecidableEq

inductive Party
  | starter
  | child
  deriving DecidableEq

structure State (σ β : Type*) where
  starter : Starter β
  child : Child
  /-- Who holds the mutex. -/
  mutex : Option Party
  shared : σ

inductive Event (ε : Type*)
  | starter
  | child
  /-- The sleep of the starter ends for no reason. -/
  | spurious
  | other (e : ε)

variable {σ ε ω β : Type*} (H : Handshake σ ε ω β)

/-- The starter moves. Whether the thread exists is up to `created`, and the starter goes on either
way. -/
def starterStep (created : Bool) (s : State σ β) : Option (State σ β) :=
  match s.starter with
  | .creating =>
    if created then
      some { s with starter := .locking, child := .preparing, shared := H.create s.shared }
    else
      some { s with starter := .locking }
  | .locking | .woken =>
    if s.mutex = none then some { s with starter := .testing, mutex := some .starter } else none
  | .testing =>
    if H.ready s.shared then
      some { s with starter := .leaving }
    else
      some { s with starter := .waiting, mutex := none }
  | .leaving => some { s with starter := .returning, mutex := none }
  | .returning =>
    some { s with starter := .returned (H.value s.shared), shared := H.leave s.shared }
  | .waiting | .returned _ => none

/-- A signal wakes the starter if it sleeps, and is lost otherwise. -/
def signal (s : State σ β) : State σ β :=
  match s.starter with
  | .waiting => { s with starter := .woken }
  | _ => s

/-- The new thread moves, up to the end of its section. -/
def childStep (s : State σ β) : Option (State σ β) :=
  match s.child with
  | .preparing => some { s with child := .locking, shared := H.prepare s.shared }
  | .locking =>
    if s.mutex = none then some { s with child := .setting, mutex := some .child } else none
  | .setting => some { s with child := .notifying, shared := H.set s.shared }
  | .notifying =>
    some { (if H.notifies s.shared then signal s else s) with child := .unlocking }
  | .unlocking => some { s with child := .running, mutex := none }
  | .absent | .running => none

def step (created : Bool) (s : State σ β) : Event ε → Option (State σ β × List ω)
  | .starter => (H.starterStep created s).map fun t => (t, [])
  | .child => (H.childStep s).map fun t => (t, [])
  | .spurious =>
    match s.starter with
    | .waiting => some ({ s with starter := .woken }, [])
    | _ => none
  | .other e =>
    if s.child = .running then
      (H.run s.shared e).map fun r => ({ s with shared := r.1 }, r.2)
    else
      none

/-- The starter and its thread, by the outcome of the creation. -/
def system (created : Bool) : System (State σ β) (Event ε) ω where
  init := { starter := .creating, child := .absent, mutex := none, shared := H.init }
  step := H.step created

/-! ### What can go wrong -/

/-- The starter sleeps, and nothing that can still happen sets the condition. -/
def Stuck (created : Bool) (s : State σ β) : Prop :=
  s.starter = .waiting ∧ ∀ obs t, (H.system created).Steps s obs t → H.ready t.shared = false

/-- The starter sleeps with the condition set, and no signal is to come. -/
def MissedWakeup (s : State σ β) : Prop :=
  s.starter = .waiting ∧ H.ready s.shared = true ∧
    ¬(s.child = .notifying ∧ H.notifies s.shared = true)

/-- Starting the thread does not hang the starter. -/
structure Safe (created : Bool) (s : State σ β) : Prop where
  not_stuck : ¬H.Stuck created s
  not_missed : ¬H.MissedWakeup s

/-- What the thread has published. -/
def published : σ := H.set (H.prepare (H.create H.init))

/-- Only the section of the thread sets the condition, with a signal behind it, and `K` keeps it
set until the starter returns. -/
structure Keeps (K : σ → Prop) : Prop where
  init : H.ready H.init = false
  create : H.ready (H.create H.init) = false
  prepare : H.ready (H.prepare (H.create H.init)) = false
  notifies : H.notifies H.published = true
  published : K H.published
  ready : ∀ {s}, K s → H.ready s = true
  run : ∀ {s t e o}, K s → H.run s e = some (t, o) → K t

/-! ### The invariant -/

/-- What the thread has made of the shared state, while the starter has not returned. -/
def Stage (K : σ → Prop) (s : State σ β) : Prop :=
  match s.child with
  | .absent => s.shared = H.init
  | .preparing => s.shared = H.create H.init
  | .locking | .setting => s.shared = H.prepare (H.create H.init)
  | .notifying | .unlocking => s.shared = H.published
  | .running => K s.shared

structure Inv (K : σ → Prop) (created : Bool) (s : State σ β) : Prop where
  mutex_starter : s.mutex = some .starter ↔ s.starter = .testing ∨ s.starter = .leaving
  mutex_child : s.mutex = some .child ↔
    s.child = .setting ∨ s.child = .notifying ∨ s.child = .unlocking
  stage : (∀ v, s.starter ≠ .returned v) → H.Stage K s
  absent : s.child = .absent ↔ s.starter = .creating ∨ created = false
  /-- The thread has its signal still to give. -/
  waiting : s.starter = .waiting → s.child ≠ .unlocking ∧ s.child ≠ .running
  behind : s.starter = .leaving ∨ s.starter = .returning → s.child = .running
  returned : ∀ v, s.starter = .returned v → s.child = .running ∧ ∃ u, K u ∧ v = H.value u

variable {H} {K : σ → Prop} {created : Bool} {s t : State σ β} {o : List ω}

/-- The condition is set if and only if the thread has set it. -/
lemma Inv.ready_iff (hi : H.Inv K created s) (hK : H.Keeps K)
    (hstarter : ∀ v, s.starter ≠ .returned v) :
    H.ready s.shared = true ↔
      s.child = .notifying ∨ s.child = .unlocking ∨ s.child = .running := by
  have hstage := hi.stage hstarter
  simp only [Stage] at hstage
  cases hchild : s.child <;> simp only [hchild] at hstage
  case absent => simp [hstage, hK.init]
  case preparing => simp [hstage, hK.create]
  case locking | setting => simp [hstage, hK.prepare]
  case notifying | unlocking => simp [hstage, hK.ready hK.published]
  case running => simp [hK.ready hstage]

/-! ### Its steps -/

/-- What a step can be. -/
inductive Move (H : Handshake σ ε ω β) (created : Bool) (s : State σ β) :
    State σ β → List ω → Prop
  | starter {t : State σ β} (h : H.starterStep created s = some t) : Move H created s t []
  | child {t : State σ β} (h : H.childStep s = some t) : Move H created s t []
  | spurious (hpc : s.starter = .waiting) : Move H created s { s with starter := .woken } []
  | other {e : ε} {u : σ} {o : List ω} (hchild : s.child = .running)
      (h : H.run s.shared e = some (u, o)) : Move H created s { s with shared := u } o

lemma Move.of_step {e : Event ε} (h : (H.system created).step s e = some (t, o)) :
    Move H created s t o := by
  change H.step created s e = some (t, o) at h
  cases e with
  | starter =>
    obtain ⟨u, hu, heq⟩ := Option.map_eq_some_iff.mp h
    cases heq
    exact .starter hu
  | child =>
    obtain ⟨u, hu, heq⟩ := Option.map_eq_some_iff.mp h
    cases heq
    exact .child hu
  | spurious =>
    simp only [step] at h
    split at h <;> cases h
    exact .spurious ‹_›
  | other e =>
    simp only [step] at h
    split at h
    · obtain ⟨⟨u, o'⟩, hu, heq⟩ := Option.map_eq_some_iff.mp h
      cases heq
      exact .other ‹_› hu
    · cases h

lemma inv_initial : H.Inv K created (H.system created).init where
  mutex_starter := by simp [system]
  mutex_child := by simp [system]
  stage _ := rfl
  absent := by simp [system]
  waiting h := by cases h
  behind h := by rcases h with h | h <;> cases h
  returned _ h := by cases h

/-- The starter takes the mutex, from its first call or behind a wait. -/
lemma Inv.lock (hi : H.Inv K created s) (hpc : s.starter = .locking ∨ s.starter = .woken)
    (hfree : s.mutex = none) :
    H.Inv K created { s with starter := .testing, mutex := some .starter } where
  mutex_starter := by simp
  mutex_child := by
    have hchild := hi.mutex_child
    simpa [hfree] using hchild
  stage _ := hi.stage (by rcases hpc with hpc | hpc <;> simp [hpc])
  absent := by
    have habsent := hi.absent
    rcases hpc with hpc | hpc <;> simpa [hpc] using habsent
  waiting h := by cases h
  behind h := by rcases h with h | h <;> cases h
  returned _ h := by cases h

lemma Inv.of_starter (hi : H.Inv K created s) (hK : H.Keeps K)
    (h : H.starterStep created s = some t) : H.Inv K created t := by
  have hms := hi.mutex_starter
  have hmc := hi.mutex_child
  have habsent := hi.absent
  simp only [starterStep] at h
  cases hpc : s.starter <;> simp only [hpc, reduceCtorEq] at h
  case creating =>
    have hchild : s.child = .absent := habsent.mpr (.inl hpc)
    have hstage := hi.stage (by simp [hpc])
    simp only [Stage, hchild] at hstage
    cases created <;> cases h
    · exact ⟨by simpa [hpc] using hms, by simpa [hchild] using hmc, fun _ => by
        simpa only [Stage, hchild] using hstage, by simpa using hchild, by simp, by simp, by simp⟩
    · exact ⟨by simpa [hpc] using hms, by simpa [hchild] using hmc, fun _ => by
        simp only [Stage, hstage], by simp, by simp, by simp, by simp⟩
  case locking | woken =>
    split at h <;> cases h
    exact hi.lock (by simp [hpc]) ‹_›
  case testing =>
    -- the starter holds the mutex, so that the thread is not inside of its section
    have hmutex : s.mutex = some .starter := hms.mpr (.inl hpc)
    simp only [hmutex, Option.some.injEq, reduceCtorEq, false_iff, not_or] at hmc
    have hready := hi.ready_iff hK (by simp [hpc])
    split at h <;> rename_i htest <;> cases h
    · have hrunning : s.child = .running := by
        rcases hready.mp htest with hchild | hchild | hchild
        · exact absurd hchild hmc.2.1
        · exact absurd hchild hmc.2.2
        · exact hchild
      exact ⟨by simp [hmutex], by simp [hmutex, hrunning], fun _ => hi.stage (by simp [hpc]),
        by simpa [hpc] using habsent, by simp, fun _ => hrunning, by simp⟩
    · have hnot : s.child ≠ .running := fun hchild => htest (hready.mpr (.inr (.inr hchild)))
      exact ⟨by simp, by simpa using hmc, fun _ => hi.stage (by simp [hpc]),
        by simpa [hpc] using habsent, fun _ => ⟨hmc.2.2, hnot⟩, by simp, by simp⟩
  case leaving =>
    cases h
    have hrunning := hi.behind (.inl hpc)
    exact ⟨by simp, by simp [hrunning], fun _ => hi.stage (by simp [hpc]),
      by simpa [hpc] using habsent, by simp, fun _ => hrunning, by simp⟩
  case returning =>
    cases h
    have hrunning := hi.behind (.inr hpc)
    have hkept := hi.stage (by simp [hpc])
    simp only [Stage, hrunning] at hkept
    refine ⟨by simpa [hpc] using hms, hmc, fun hstarter => absurd rfl (hstarter _),
      by simpa [hpc] using habsent, by simp, by simp, ?_⟩
    rintro v ⟨⟩
    exact ⟨hrunning, _, hkept, rfl⟩

/-- A sleep of the starter ends. -/
lemma Inv.wake (hi : H.Inv K created s) (hpc : s.starter = .waiting) :
    H.Inv K created { s with starter := .woken } where
  mutex_starter := by
    have hmutex := hi.mutex_starter
    simpa [hpc] using hmutex
  mutex_child := hi.mutex_child
  stage _ := hi.stage (by simp [hpc])
  absent := by
    have habsent := hi.absent
    simpa [hpc] using habsent
  waiting h := by cases h
  behind h := by rcases h with h | h <;> cases h
  returned _ h := by cases h

lemma signal_of_waiting (h : s.starter = .waiting) : signal s = { s with starter := .woken } := by
  simp [signal, h]

lemma signal_of_ne (h : s.starter ≠ .waiting) : signal s = s := by
  unfold signal
  split
  · contradiction
  · rfl

/-- A signal leaves the thread alone, and nobody asleep. -/
lemma Inv.signal (hi : H.Inv K created s) :
    H.Inv K created (signal s) ∧ (Handshake.signal s).starter ≠ .waiting ∧
      (Handshake.signal s).child = s.child ∧ (Handshake.signal s).mutex = s.mutex := by
  by_cases hpc : s.starter = .waiting
  · rw [signal_of_waiting hpc]
    exact ⟨hi.wake hpc, by simp, rfl, rfl⟩
  · rw [signal_of_ne hpc]
    exact ⟨hi, hpc, rfl, rfl⟩

/-- While the thread is in front of the end of its section, the starter is in front of its
return. -/
lemma Inv.starter_of_child (hi : H.Inv K created s) (hchild : s.child ≠ .running) :
    s.starter ≠ .leaving ∧ s.starter ≠ .returning ∧ ∀ v, s.starter ≠ .returned v :=
  ⟨fun h => hchild (hi.behind (.inl h)), fun h => hchild (hi.behind (.inr h)),
    fun v h => hchild (hi.returned v h).1⟩

lemma Inv.of_child (hi : H.Inv K created s) (hK : H.Keeps K) (h : H.childStep s = some t) :
    H.Inv K created t := by
  simp only [childStep] at h
  cases hchild : s.child <;> simp only [hchild, reduceCtorEq] at h
  all_goals
    obtain ⟨hleaving, hreturning, hreturned⟩ := hi.starter_of_child (by simp [hchild])
    have hms := hi.mutex_starter
    have hmc := hi.mutex_child
    have habsent := hi.absent
    have hstage := hi.stage hreturned
    simp only [hchild, reduceCtorEq, false_iff, not_or, true_or, or_true, iff_true] at hmc habsent
    simp only [Stage, hchild] at hstage
  case preparing =>
    cases h
    exact ⟨hms, by simpa using hmc, fun _ => by simp only [Stage, hstage],
      by simpa using habsent, by simp, by simp [hleaving, hreturning], by simp [hreturned]⟩
  case locking =>
    split at h <;> cases h
    rename_i hfree
    simp only [hfree, reduceCtorEq, false_iff] at hms
    exact ⟨by simpa using hms, by simp, fun _ => hstage, by simpa using habsent, by simp,
      by simp [hleaving, hreturning], by simp [hreturned]⟩
  case setting =>
    cases h
    exact ⟨hms, by simpa using hmc, fun _ => by simp only [Stage, hstage, published],
      by simpa using habsent, by simp, by simp [hleaving, hreturning], by simp [hreturned]⟩
  case notifying =>
    cases h
    rw [if_pos (by rw [hstage, hK.notifies])]
    obtain ⟨hsignal, hawake, hsame, hmutex⟩ := hi.signal
    have hs := hsignal.starter_of_child (by simp [hsame, hchild])
    exact ⟨hsignal.mutex_starter, by simpa [hmutex] using hmc, fun _ => by
      have hafter := hsignal.stage hs.2.2
      simpa only [Stage, hsame, hchild] using hafter, by
      have hborn := hsignal.absent
      simpa [hsame, hchild] using hborn, fun hpc => absurd hpc hawake,
      by simp [hs.1, hs.2.1], by simp [hs.2.2]⟩
  case unlocking =>
    cases h
    simp only [hmc, Option.some.injEq, reduceCtorEq, false_iff] at hms
    have hawake : s.starter ≠ .waiting := fun hpc => (hi.waiting hpc).1 hchild
    exact ⟨by simpa using hms, by simp, fun _ => by
      simp only [Stage, hstage]
      exact hK.published, by simpa using habsent, by simp [hawake], by simp, by simp [hreturned]⟩

/-- What happens once the thread has left its section keeps the condition. -/
lemma Inv.of_run {e : ε} {u : σ} (hi : H.Inv K created s) (hK : H.Keeps K)
    (hchild : s.child = .running) (h : H.run s.shared e = some (u, o)) :
    H.Inv K created { s with shared := u } where
  mutex_starter := hi.mutex_starter
  mutex_child := hi.mutex_child
  stage hstarter := by
    have hkept := hi.stage hstarter
    simp only [Stage, hchild] at hkept ⊢
    exact hK.run hkept h
  absent := hi.absent
  waiting := hi.waiting
  behind := hi.behind
  returned := hi.returned

lemma inv_of_reachable (hK : H.Keeps K) (h : (H.system created).Reachable s) :
    H.Inv K created s := by
  apply h.invariant inv_initial
  intro s e t o _ hi he
  cases Move.of_step he with
  | starter h => exact hi.of_starter hK h
  | child h => exact hi.of_child hK h
  | spurious hpc => exact hi.wake hpc
  | other hchild h => exact hi.of_run hK hchild h

/-! ### The starter and its condition -/

/-- No wakeup is missed: as long as the starter sleeps, the signal is to come. -/
theorem not_missedWakeup (hK : H.Keeps K) (h : (H.system created).Reachable s) :
    ¬H.MissedWakeup s := by
  rintro ⟨hpc, hready, hsignal⟩
  have hi := inv_of_reachable hK h
  have hstarter : ∀ v, s.starter ≠ .returned v := by simp [hpc]
  obtain ⟨hunlocking, hrunning⟩ := hi.waiting hpc
  have hchild : s.child = .notifying := by
    rcases (hi.ready_iff hK hstarter).mp hready with hchild | hchild | hchild
    · exact hchild
    · exact absurd hchild hunlocking
    · exact absurd hchild hrunning
  have hstage := hi.stage hstarter
  simp only [Stage, hchild] at hstage
  exact hsignal ⟨hchild, by rw [hstage, hK.notifies]⟩

/-- Where the starter returns, the condition is set and kept. -/
lemma kept_of_returning (hK : H.Keeps K) (h : (H.system created).Reachable s)
    (hpc : s.starter = .returning) : K s.shared := by
  have hi := inv_of_reachable hK h
  have hstage := hi.stage (by simp [hpc])
  simpa only [Stage, hi.behind (.inr hpc)] using hstage

/-- What the starter returns it has read while the condition was kept. -/
lemma value_of_returned (hK : H.Keeps K) (h : (H.system created).Reachable s) {v : β}
    (hpc : s.starter = .returned v) : ∃ u, K u ∧ v = H.value u :=
  ((inv_of_reachable hK h).returned v hpc).2

/-- The next steps of the thread alone wake the starter, with the condition set. -/
def Wakes (H : Handshake σ ε ω β) (created : Bool) (s : State σ β) : Prop :=
  ∃ n t, (H.system created).exec s (List.replicate n .child) = some (t, []) ∧
    t.starter = .woken ∧ H.ready t.shared = true

lemma Wakes.step (h : H.childStep s = some t) (ht : H.Wakes created t) : H.Wakes created s := by
  obtain ⟨n, u, hexec, hwoken, hready⟩ := ht
  have hstep : (H.system created).step s .child = some (t, []) := by
    simp only [system, Handshake.step, h, Option.map_some]
  exact ⟨n + 1, u, System.exec_cons.mpr ⟨t, [], [], hstep, hexec, rfl⟩, hwoken, hready⟩

/-- A thread that has set the condition wakes the starter with its signal. -/
lemma Wakes.of_notifying (hpc : s.starter = .waiting) (hchild : s.child = .notifying)
    (hnotifies : H.notifies s.shared = true) (hready : H.ready s.shared = true) :
    H.Wakes created s := by
  refine ⟨1, { s with starter := .woken, child := .unlocking }, ?_, rfl, hready⟩
  refine System.exec_singleton.mpr ?_
  simp only [system, Handshake.step, childStep, hchild, hnotifies, if_true,
    signal_of_waiting hpc, Option.map_some]

lemma Wakes.of_setting (hK : H.Keeps K) (hpc : s.starter = .waiting) (hchild : s.child = .setting)
    (hshared : s.shared = H.prepare (H.create H.init)) : H.Wakes created s := by
  have hstep : H.childStep s = some { s with child := .notifying, shared := H.published } := by
    simp only [childStep, hchild, hshared, published]
  exact .step hstep (.of_notifying hpc rfl hK.notifies (hK.ready hK.published))

lemma Wakes.of_locking (hK : H.Keeps K) (hpc : s.starter = .waiting) (hchild : s.child = .locking)
    (hfree : s.mutex = none) (hshared : s.shared = H.prepare (H.create H.init)) :
    H.Wakes created s := by
  have hstep : H.childStep s = some { s with child := .setting, mutex := some .child } := by
    simp only [childStep, hchild, hfree, if_true]
  exact .step hstep (.of_setting hK hpc rfl hshared)

/-- Nobody holds the mutex while the starter sleeps and the thread is in front of its section. -/
lemma Inv.free (hi : H.Inv K created s) (hpc : s.starter = .waiting)
    (hchild : s.child = .preparing ∨ s.child = .locking) : s.mutex = none := by
  rcases hmutex : s.mutex with _ | _ | _
  · rfl
  · rcases hi.mutex_starter.mp hmutex with h | h <;> rw [hpc] at h <;> cases h
  · rcases hi.mutex_child.mp hmutex with h | h | h <;> rcases hchild with hchild | hchild <;>
      rw [hchild] at h <;> cases h

/-- A thread that exists wakes the starter, wherever it stands. -/
theorem wakes (hK : H.Keeps K) (hi : H.Inv K true s) (hpc : s.starter = .waiting) :
    H.Wakes true s := by
  have hstage := hi.stage (by simp [hpc])
  obtain ⟨hunlocking, hrunning⟩ := hi.waiting hpc
  simp only [Stage] at hstage
  cases hchild : s.child <;> simp only [hchild] at hstage
  case absent => exact absurd (hi.absent.mp hchild) (by simp [hpc])
  case preparing =>
    have hstep : H.childStep s =
        some { s with child := .locking, shared := H.prepare (H.create H.init) } := by
      simp only [childStep, hchild, hstage]
    exact .step hstep (.of_locking hK hpc rfl (hi.free hpc (.inl hchild)) rfl)
  case locking => exact .of_locking hK hpc hchild (hi.free hpc (.inr hchild)) hstage
  case setting => exact .of_setting hK hpc hchild hstage
  case notifying =>
    exact .of_notifying hpc hchild (by rw [hstage, hK.notifies])
      (by rw [hstage]; exact hK.ready hK.published)
  case unlocking => exact absurd hchild hunlocking
  case running => exact absurd hchild hrunning

/-- Without the thread nobody sets the condition. -/
lemma not_ready_of_absent (hK : H.Keeps K) (h : (H.system false).Reachable s) :
    H.ready s.shared = false ∧ ∀ v, s.starter ≠ .returned v := by
  have hi := inv_of_reachable hK h
  have hchild : s.child = .absent := hi.absent.mpr (.inr rfl)
  obtain ⟨-, -, hstarter⟩ := hi.starter_of_child (by simp [hchild])
  have hstage := hi.stage hstarter
  simp only [Stage, hchild] at hstage
  exact ⟨by rw [hstage, hK.init], hstarter⟩

/-- Without the thread the starter sleeps for good. -/
lemma stuck_of_waiting (hK : H.Keeps K) (h : (H.system false).Reachable s)
    (hpc : s.starter = .waiting) : H.Stuck false s := by
  obtain ⟨obs, hrun⟩ := h
  exact ⟨hpc, fun obs' t ht => (not_ready_of_absent hK (hrun.trans ht).reachable).1⟩

/-- Without the thread the starter goes to sleep. -/
lemma waiting_of_not_created (hK : H.Keeps K) :
    ∃ s, (H.system false).Reachable s ∧ s.starter = .waiting := by
  have hexec : (H.system false).exec (H.system false).init [.starter, .starter, .starter] =
      some ({ starter := .waiting, child := .absent, mutex := none, shared := H.init }, []) := by
    simp [System.exec, system, step, starterStep, hK.init]
  exact ⟨_, (System.Run.of_exec _ hexec).reachable, rfl⟩

/-- The starter is never stuck if and only if its thread was created. -/
theorem not_stuck_iff (hK : H.Keeps K) :
    (∀ s, (H.system created).Reachable s → ¬H.Stuck created s) ↔ created = true := by
  constructor
  · intro h
    by_contra hcreated
    obtain rfl : created = false := by simpa using hcreated
    obtain ⟨s, hs, hpc⟩ := waiting_of_not_created hK
    exact h s hs (stuck_of_waiting hK hs hpc)
  · rintro rfl s hs ⟨hpc, hnever⟩
    obtain ⟨n, t, hexec, -, hready⟩ := wakes hK (inv_of_reachable hK hs) hpc
    rw [hnever [] t (System.Steps.of_exec _ hexec)] at hready
    cases hready

/-- Nothing but a thread that is not created hangs the starter. -/
theorem safe_iff (hK : H.Keeps K) :
    (∀ s, (H.system created).Reachable s → H.Safe created s) ↔ created = true := by
  constructor
  · intro h
    exact (not_stuck_iff hK).mp fun s hs => (h s hs).not_stuck
  · intro h s hs
    exact ⟨(not_stuck_iff hK).mpr h s hs, not_missedWakeup hK hs⟩

/-! ### The shared state -/

/-- A system that makes each step of the two threads on their shared state. -/
structure Within (H : Handshake σ ε ω β) {ε' : Type*} (M : System σ ε' ω) (K : σ → Prop) :
    Prop where
  init : M.init = H.init
  create : M.Steps H.init [] (H.create H.init)
  prepare : M.Steps (H.create H.init) [] (H.prepare (H.create H.init))
  set : M.Steps (H.prepare (H.create H.init)) [] H.published
  leave : ∀ {s}, K s → M.Steps s [] (H.leave s)
  run : ∀ {s t e o}, H.run s e = some (t, o) → M.Steps s o t

lemma signal_shared (s : State σ β) : (signal s).shared = s.shared := by
  unfold signal
  split <;> rfl

lemma Within.steps_of_starter {ε' : Type*} {M : System σ ε' ω} (hM : H.Within M K)
    (hi : H.Inv K created s) (h : H.starterStep created s = some t) :
    M.Steps s.shared [] t.shared := by
  simp only [starterStep] at h
  cases hpc : s.starter <;> simp only [hpc, reduceCtorEq] at h
  case creating =>
    have hstage := hi.stage (by simp [hpc])
    simp only [Stage, hi.absent.mpr (.inl hpc)] at hstage
    split at h <;> cases h
    · rw [hstage]
      exact hM.create
    · exact .refl _
  case returning =>
    have hkept := hi.stage (by simp [hpc])
    simp only [Stage, hi.behind (.inr hpc)] at hkept
    cases h
    exact hM.leave hkept
  case leaving =>
    cases h
    exact .refl _
  case locking | woken | testing =>
    split at h <;> cases h <;> exact .refl _

lemma Within.steps_of_child {ε' : Type*} {M : System σ ε' ω} (hM : H.Within M K)
    (hi : H.Inv K created s) (h : H.childStep s = some t) : M.Steps s.shared [] t.shared := by
  simp only [childStep] at h
  cases hchild : s.child <;> simp only [hchild, reduceCtorEq] at h
  all_goals
    have hstage := hi.stage (hi.starter_of_child (by simp [hchild])).2.2
    simp only [Stage, hchild] at hstage
  case preparing =>
    cases h
    simpa only [hstage] using hM.prepare
  case setting =>
    cases h
    simpa only [hstage, published] using hM.set
  case locking =>
    split at h <;> cases h
    exact .refl _
  case notifying =>
    cases h
    split
    · simpa only [signal_shared] using .refl _
    · exact .refl _
  case unlocking =>
    cases h
    exact .refl _

/-- The shared state of a run makes a run. -/
theorem Within.run_shared {ε' : Type*} {M : System σ ε' ω} (hM : H.Within M K) (hK : H.Keeps K)
    {obs : List ω} (h : (H.system created).Run obs s) : M.Run obs s.shared := by
  refine h.invariant (P := fun obs s => M.Run obs s.shared) ?_ ?_
  · change M.Steps M.init [] H.init
    rw [hM.init]
    exact .refl _
  intro obs s e t o hrun ih he
  have hi := inv_of_reachable hK hrun.reachable
  apply ih.trans
  cases Move.of_step he with
  | starter h => exact hM.steps_of_starter hi h
  | child h => exact hM.steps_of_child hi h
  | spurious => exact .refl _
  | other _ h => exact hM.run h

end Handshake
