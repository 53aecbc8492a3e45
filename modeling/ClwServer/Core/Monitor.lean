import ClwServer.Core.System
import Mathlib.Logic.Function.Basic

/-!
# Waiting for a condition, with any number of threads

Threads share a state behind a mutex with a condition variable. A thread waits until the state is
ready, or updates the state and wakes all that sleep, if the new state asks for it. A sleep may
end for no reason. Every thread may make as many calls of either kind as it likes.
-/

/-- A state behind a mutex, and what the threads do to it. -/
structure Monitor (σ : Type*) where
  init : σ
  /-- A thread that waits goes on. -/
  ready : σ → Bool
  /-- What an update does, where it can be done. -/
  update : σ → Option σ
  /-- Whether it wakes the threads that sleep, behind that. -/
  broadcasts : σ → Bool

namespace Monitor

/-- Where a thread is. -/
inductive Pc
  | idle
  /-- In a wait, before it takes the mutex. -/
  | entering
  /-- Before the test, with the mutex. -/
  | testing
  /-- On the condition variable, without the mutex. -/
  | asleep
  /-- Woken, before it takes the mutex again. -/
  | woken
  /-- Behind the test, with the mutex. -/
  | leaving
  /-- In an update, before it takes the mutex. -/
  | requesting
  /-- Before the update itself, with the mutex. -/
  | updating
  /-- Behind the update, before the broadcast, with the mutex. -/
  | announcing
  /-- Behind the broadcast, with the mutex. -/
  | releasing
  deriving DecidableEq

/-- The thread is in a section under the mutex. -/
def Pc.Inside : Pc → Prop
  | .testing | .leaving | .updating | .announcing | .releasing => True
  | .idle | .entering | .asleep | .woken | .requesting => False

/-- The thread is in the section of an update. -/
def Pc.InUpdate : Pc → Prop
  | .updating | .announcing | .releasing => True
  | _ => False

structure State (σ τ : Type*) where
  shared : σ
  /-- Who holds the mutex. -/
  mutex : Option τ
  pc : τ → Pc

inductive Event (τ : Type*)
  /-- The thread `t` calls the wait. -/
  | wait (t : τ)
  /-- The thread `t` calls the update. -/
  | update (t : τ)
  /-- The thread `t` moves in its call. -/
  | move (t : τ)
  /-- The sleep of `t` ends for no reason. -/
  | spurious (t : τ)

inductive Obs (τ : Type*)
  /-- A wait of `t` returns. -/
  | returned (t : τ)
  /-- An update of `t` takes effect. -/
  | updated (t : τ)
  deriving DecidableEq

variable {σ τ : Type*}

/-- All that sleep are woken. -/
def broadcast (s : State σ τ) : State σ τ :=
  { s with pc := fun t => if s.pc t = .asleep then .woken else s.pc t }

variable [DecidableEq τ] (M : Monitor σ)

def setPc (s : State σ τ) (t : τ) (pc : Pc) : State σ τ :=
  { s with pc := Function.update s.pc t pc }

def lock (s : State σ τ) (t : τ) (pc : Pc) : State σ τ := { setPc s t pc with mutex := some t }

def unlock (s : State σ τ) (t : τ) (pc : Pc) : State σ τ := { setPc s t pc with mutex := none }

def move (s : State σ τ) (t : τ) : Option (State σ τ × List (Obs τ)) :=
  match s.pc t with
  | .entering | .woken => if s.mutex = none then some (lock s t .testing, []) else none
  | .testing =>
    some (if M.ready s.shared then setPc s t .leaving else unlock s t .asleep, [])
  | .leaving => some (unlock s t .idle, [.returned t])
  | .requesting => if s.mutex = none then some (lock s t .updating, []) else none
  | .updating =>
    (M.update s.shared).map fun u => ({ setPc s t .announcing with shared := u }, [.updated t])
  | .announcing =>
    some (setPc (if M.broadcasts s.shared then broadcast s else s) t .releasing, [])
  | .releasing => some (unlock s t .idle, [])
  | .idle | .asleep => none

def step (s : State σ τ) : Event τ → Option (State σ τ × List (Obs τ))
  | .wait t => if s.pc t = .idle then some (setPc s t .entering, []) else none
  | .update t => if s.pc t = .idle then some (setPc s t .requesting, []) else none
  | .move t => M.move s t
  | .spurious t => if s.pc t = .asleep then some (setPc s t .woken, []) else none

/-- The threads `τ` on one monitor. -/
def system (τ : Type*) [DecidableEq τ] : System (State σ τ) (Event τ) (Obs τ) where
  init := { shared := M.init, mutex := none, pc := fun _ => .idle }
  step := M.step

/-! ### What the threads do -/

/-- An update that makes the state ready wakes the threads that sleep. -/
def Announces : Prop :=
  ∀ {s u}, M.ready s = false → M.update s = some u → M.ready u = true → M.broadcasts u = true

/-- The threads, and what they have to do with the mutex and with the state. -/
structure Inv (s : State σ τ) : Prop where
  mutex : ∀ t, s.mutex = some t ↔ (s.pc t).Inside
  /-- A thread sleeps only while the state is not ready, or the broadcast is to come. -/
  asleep : ∀ t, s.pc t = .asleep → M.ready s.shared = false ∨
    ∃ u, s.pc u = .announcing ∧ M.broadcasts s.shared = true
  leaving : ∀ t, s.pc t = .leaving → M.ready s.shared = true

variable {M} {s s' : State σ τ} {t : τ} {o : List (Obs τ)}

lemma inv_init : M.Inv (M.system τ).init where
  mutex _ := by simp [system, Pc.Inside]
  asleep _ h := by cases h
  leaving _ h := by cases h

/-- Where the thread `t` gets to `pc`, and the mutex to `m`. -/
lemma Inv.goto (hi : M.Inv s) {pc : Pc} {m : Option τ} (hself : m = some t ↔ pc.Inside)
    (hothers : ∀ u, u ≠ t → (m = some u ↔ s.mutex = some u))
    (hasleep : pc = .asleep → M.ready s.shared = false)
    (hleaving : pc = .leaving → M.ready s.shared = true)
    (hannounced : s.pc t = .announcing →
      (∀ u, s.pc u ≠ .asleep) ∨ M.broadcasts s.shared = false) :
    M.Inv { setPc s t pc with mutex := m } where
  mutex u := by
    by_cases hu : u = t
    · subst hu
      simpa [setPc] using hself
    · simpa [setPc, hu] using (hothers u hu).trans (hi.mutex u)
  asleep u hu := by
    by_cases hut : u = t
    · subst hut
      exact .inl (hasleep (by simpa [setPc] using hu))
    · have hsleeps : s.pc u = .asleep := by simpa [setPc, hut] using hu
      rcases hi.asleep u hsleeps with hready | ⟨v, hv, hbroadcasts⟩
      · exact .inl hready
      · -- a broadcast that is to come is one of another thread
        have hvt : v ≠ t := by
          rintro rfl
          rcases hannounced hv with hnone | hquiet
          · exact hnone u hsleeps
          · rw [hquiet] at hbroadcasts
            cases hbroadcasts
        exact .inr ⟨v, by simpa [setPc, hvt] using hv, hbroadcasts⟩
  leaving u hu := by
    by_cases hut : u = t
    · subst hut
      exact hleaving (by simpa [setPc] using hu)
    · exact hi.leaving u (by simpa [setPc, hut] using hu)

/-- A thread gets from one place without the mutex to another, but not to sleep. -/
lemma Inv.setPc (hi : M.Inv s) {pc : Pc} (hold : ¬(s.pc t).Inside) (hnew : ¬pc.Inside)
    (hawake : pc ≠ .asleep) : M.Inv (setPc s t pc) := by
  apply hi.goto (m := s.mutex)
  · exact iff_of_false ((hi.mutex t).not.mpr hold) hnew
  · exact fun _ _ => Iff.rfl
  · exact fun hpc => absurd hpc hawake
  · rintro rfl
    exact absurd trivial hnew
  · intro hpc
    rw [hpc] at hold
    exact absurd trivial hold

lemma Inv.lock (hi : M.Inv s) (hfree : s.mutex = none) {pc : Pc}
    (hpc : pc = .testing ∨ pc = .updating) : M.Inv (lock s t pc) := by
  have hout : ¬(s.pc t).Inside := (hi.mutex t).not.mp (by simp [hfree])
  apply hi.goto (m := some t)
  · rcases hpc with rfl | rfl <;> exact iff_of_true rfl trivial
  · intro u hu
    simp [hfree, Ne.symm hu]
  · rcases hpc with rfl | rfl <;> exact nofun
  · rcases hpc with rfl | rfl <;> exact nofun
  · intro hann
    rw [hann] at hout
    exact absurd trivial hout

lemma Inv.unlock (hi : M.Inv s) (hs : s.mutex = some t) {pc : Pc} (hnew : ¬pc.Inside)
    (hann : s.pc t ≠ .announcing) (hasleep : pc = .asleep → M.ready s.shared = false) :
    M.Inv (unlock s t pc) := by
  apply hi.goto (m := none)
  · exact iff_of_false nofun hnew
  · intro u hu
    simp [hs, Ne.symm hu]
  · exact hasleep
  · rintro rfl
    exact absurd trivial hnew
  · exact fun hpc => absurd hpc hann

omit [DecidableEq τ] in
/-- A broadcast moves nobody in or out of a section. -/
lemma Inv.broadcast (hi : M.Inv s) :
    M.Inv (broadcast s) ∧ ∀ u, (Monitor.broadcast s).pc u ≠ .asleep := by
  have hawake : ∀ u, (Monitor.broadcast s).pc u ≠ .asleep := by
    intro u
    simp only [Monitor.broadcast]
    split
    · nofun
    · assumption
  refine ⟨⟨fun u => ?_, fun u hu => absurd hu (hawake u), fun u hu => ?_⟩, hawake⟩
  · rw [show (Monitor.broadcast s).mutex = s.mutex from rfl, hi.mutex u]
    simp only [Monitor.broadcast]
    split
    · rename_i hasleep
      rw [hasleep]
      rfl
    · rfl
  · apply hi.leaving u
    simp only [Monitor.broadcast] at hu
    split at hu
    · cases hu
    · exact hu

omit [DecidableEq τ] in
/-- A thread that has the mutex is alone in a section. -/
lemma Inv.eq_of_inside (hi : M.Inv s) (hs : s.mutex = some t) {u : τ} (hu : (s.pc u).Inside) :
    u = t := by
  have hmutex := (hi.mutex u).mpr hu
  rw [hs] at hmutex
  exact (Option.some.inj hmutex).symm

/-- An update. Those that sleep do so in front of a state that is not ready. -/
lemma Inv.update (hi : M.Inv s) (hM : M.Announces) (hpc : s.pc t = .updating) {u : σ}
    (hu : M.update s.shared = some u) :
    M.Inv { Monitor.setPc s t .announcing with shared := u } := by
  have hs : s.mutex = some t := (hi.mutex t).mpr (by rw [hpc]; trivial)
  have halone : ∀ v, v ≠ t → ¬(s.pc v).Inside := fun v hv hinside =>
    hv (hi.eq_of_inside hs hinside)
  refine ⟨fun v => ?_, fun v hv => ?_, fun v hv => ?_⟩
  · by_cases hvt : v = t
    · subst hvt
      simp [Monitor.setPc, hs, Pc.Inside]
    · simpa [Monitor.setPc, hvt] using hi.mutex v
  · have hvt : v ≠ t := by
      rintro rfl
      simp [Monitor.setPc] at hv
    have hready : M.ready s.shared = false := by
      refine (hi.asleep v (by simpa [Monitor.setPc, hvt] using hv)).resolve_right ?_
      rintro ⟨w, hw, -⟩
      have hwt : w = t := hi.eq_of_inside hs (by rw [hw]; trivial)
      rw [hwt, hpc] at hw
      cases hw
    by_cases hnew : M.ready u = true
    · exact .inr ⟨t, by simp [Monitor.setPc], hM hready hu hnew⟩
    · exact .inl (by simpa using hnew)
  · have hvt : v ≠ t := by
      rintro rfl
      simp [Monitor.setPc] at hv
    have hleaving : s.pc v = .leaving := by simpa [Monitor.setPc, hvt] using hv
    exact absurd (by rw [hleaving]; trivial) (halone v hvt)

lemma Inv.announce (hi : M.Inv s) (hpc : s.pc t = .announcing) :
    M.Inv (Monitor.setPc (if M.broadcasts s.shared then Monitor.broadcast s else s) t
      .releasing) := by
  have hs : s.mutex = some t := (hi.mutex t).mpr (by rw [hpc]; trivial)
  by_cases hb : M.broadcasts s.shared = true
  · rw [if_pos hb]
    obtain ⟨hi', hawake⟩ := hi.broadcast
    exact hi'.goto (m := s.mutex) (iff_of_true hs trivial) (fun _ _ => Iff.rfl) nofun nofun
      fun _ => .inl hawake
  · rw [if_neg hb]
    exact hi.goto (m := s.mutex) (iff_of_true hs trivial) (fun _ _ => Iff.rfl) nofun nofun
      fun _ => .inr (by simpa using hb)

lemma Inv.move (hi : M.Inv s) (hM : M.Announces) (h : M.move s t = some (s', o)) : M.Inv s' := by
  simp only [Monitor.move] at h
  have hmutex := hi.mutex t
  cases hpc : s.pc t <;> simp only [hpc, reduceCtorEq, Option.some.injEq, Prod.mk.injEq] at h
  case entering | woken =>
    split at h <;> cases h
    exact hi.lock ‹_› (.inl rfl)
  case requesting =>
    split at h <;> cases h
    exact hi.lock ‹_› (.inr rfl)
  all_goals
    simp only [hpc] at hmutex
  case testing =>
    obtain ⟨rfl, -⟩ := h
    have hs : s.mutex = some t := hmutex.mpr trivial
    split
    · rename_i hready
      exact hi.goto (m := s.mutex) (iff_of_true hs trivial) (fun _ _ => Iff.rfl) nofun
        (fun _ => hready) (by simp [hpc])
    · rename_i hready
      exact hi.unlock hs nofun (by simp [hpc]) fun _ => by simpa using hready
  case leaving | releasing =>
    obtain ⟨rfl, -⟩ := h
    exact hi.unlock (hmutex.mpr trivial) nofun (by simp [hpc]) nofun
  case updating =>
    obtain ⟨u, hu, heq⟩ := Option.map_eq_some_iff.mp h
    cases heq
    exact hi.update hM hpc hu
  case announcing =>
    obtain ⟨rfl, -⟩ := h
    exact hi.announce hpc

lemma inv_of_reachable (hM : M.Announces) (h : (M.system τ).Reachable s) : M.Inv s := by
  apply h.invariant inv_init
  intro s e s' o _ hi he
  change M.step s e = some (s', o) at he
  cases e with
  | wait t | update t | spurious t =>
    simp only [step] at he
    split at he <;> cases he
    rename_i hpc
    exact hi.setPc (by rw [hpc]; exact id) nofun nofun
  | move t => exact hi.move hM he

/-! ### No wakeup is missed -/

/-- Where the state is ready and no update is under way, nobody is left asleep. -/
theorem awake_of_ready (hM : M.Announces) (h : (M.system τ).Reachable s)
    (hready : M.ready s.shared = true) (hquiet : ∀ u, ¬(s.pc u).InUpdate) (t : τ) :
    s.pc t ≠ .asleep := by
  intro hpc
  rcases (inv_of_reachable hM h).asleep t hpc with hnot | ⟨u, hu, -⟩
  · rw [hready] at hnot
    cases hnot
  · exact hquiet u (by rw [hu]; trivial)

/-! ### What a step shows -/

/-- What a step does to the state, and what it shows. -/
inductive Effect (M : Monitor σ) (s s' : State σ τ) : List (Obs τ) → Prop
  | quiet (h : s'.shared = s.shared) : Effect M s s' []
  | returned (t : τ) (hpc : s.pc t = .leaving) (h : s'.shared = s.shared) :
      Effect M s s' [.returned t]
  | updated (t : τ) (h : M.update s.shared = some s'.shared) : Effect M s s' [.updated t]

lemma Effect.of_move (h : M.move s t = some (s', o)) : Effect M s s' o := by
  simp only [Monitor.move] at h
  cases hpc : s.pc t <;> simp only [hpc, reduceCtorEq, Option.some.injEq, Prod.mk.injEq] at h
  case entering | woken | requesting =>
    split at h <;> cases h
    exact .quiet rfl
  case testing | announcing =>
    obtain ⟨rfl, rfl⟩ := h
    apply Effect.quiet
    split <;> rfl
  case leaving =>
    obtain ⟨rfl, rfl⟩ := h
    exact .returned t hpc rfl
  case releasing =>
    obtain ⟨rfl, rfl⟩ := h
    exact .quiet rfl
  case updating =>
    obtain ⟨u, hu, heq⟩ := Option.map_eq_some_iff.mp h
    cases heq
    exact .updated t hu

lemma Effect.of_step {e : Event τ} (h : (M.system τ).step s e = some (s', o)) :
    Effect M s s' o := by
  change M.step s e = some (s', o) at h
  cases e with
  | wait t | update t | spurious t =>
    simp only [step] at h
    split at h <;> cases h
    exact .quiet rfl
  | move t => exact .of_move h

/-- A wait returns where the state is ready. -/
theorem ready_of_returned (hM : M.Announces) (h : (M.system τ).Reachable s) {e : Event τ}
    (he : (M.system τ).step s e = some (s', o)) (hmem : .returned t ∈ o) :
    M.ready s.shared = true := by
  cases Effect.of_step he with
  | quiet => cases hmem
  | returned u hpc => exact (inv_of_reachable hM h).leaving u hpc
  | updated => simp at hmem

end Monitor
