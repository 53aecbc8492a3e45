import ClwServer.Core.IntType
import ClwServer.Core.Monitor.Progress

/-!
# The latch

`CountDownLatch.cc`: any number of threads call `wait` and `countDown`. The broadcast comes with
the one `countDown` that makes the counter zero; further calls make it negative.
-/

namespace ClwServer

/-- `CountDownLatch`, behind its mutex. -/
structure CountDownLatch where
  count_ : ℤ
  deriving DecidableEq

namespace CountDownLatch

open Cpp Monitor

/-- The test in `wait`, before it sleeps. -/
def waits (latch : CountDownLatch) : Bool := decide (0 < latch.count_)

/-- `countDown`, up to its test. -/
def countDown (latch : CountDownLatch) : CountDownLatch := ⟨latch.count_ - 1⟩

/-- `countDown` broadcasts. -/
def broadcasts (latch : CountDownLatch) : Bool := decide (latch.count_ = 0)

/-- `wait` and `countDown` of a latch that begins at `count`. The counter stays an `int`. -/
def monitor (count : ℤ) : Monitor CountDownLatch where
  init := ⟨count⟩
  ready latch := !latch.waits
  update latch := if IntType.int.min < latch.count_ then some latch.countDown else none
  broadcasts := broadcasts

variable {τ : Type} [DecidableEq τ] {count : ℤ} {obs : List (Obs τ)} {s : State CountDownLatch τ}

lemma ready_iff {latch : CountDownLatch} :
    (monitor count).ready latch = true ↔ latch.count_ ≤ 0 := by
  simp [monitor, waits]

lemma countDown_of_update {latch latch' : CountDownLatch}
    (h : (monitor count).update latch = some latch') : latch' = latch.countDown := by
  simp only [monitor] at h
  split at h <;> cases h
  rfl

/-- The counter comes to zero or below with the call that makes it zero. -/
lemma announces : (monitor count).Announces := by
  intro latch latch' hready hupdate hnew
  obtain rfl := countDown_of_update hupdate
  have hpos : ¬latch.count_ ≤ 0 := ready_iff.not.mp (by simpa using hready)
  have hle := ready_iff.mp hnew
  simp only [countDown] at hle
  simp only [monitor, broadcasts, countDown, decide_eq_true_eq]
  omega

/-- How many calls of `countDown` have taken effect. -/
def countDowns (obs : List (Obs τ)) : ℕ :=
  obs.countP fun
    | .updated _ => true
    | .returned _ => false

/-- The counter, by the calls of `countDown`. -/
lemma count_of_run (h : ((monitor count).system τ).Run obs s) :
    s.shared.count_ = count - countDowns obs := by
  refine h.invariant (P := fun obs s => s.shared.count_ = count - countDowns obs)
    (by simp [Monitor.system, monitor, countDowns]) ?_
  intro obs s e s' o _ hs he
  rw [countDowns, List.countP_append, ← countDowns]
  cases Effect.of_step he with
  | quiet hsame | returned _ _ hsame =>
    rw [hsame, hs]
    simp
  | updated _ hupdate =>
    rw [countDown_of_update hupdate, countDown, hs]
    simp
    omega

/-- A thread is in the section of `countDown` under the mutex. -/
def InCountDown (s : State CountDownLatch τ) (t : τ) : Prop := (s.pc t).InUpdate

/-- No `wait` returns before the counter has been brought to zero, and once it has, nobody is left
asleep when the calls of `countDown` are through. -/
theorem wait_releases (h : ((monitor count).system τ).Run obs s) :
    (∀ pre t post, obs = pre ++ .returned t :: post → count ≤ countDowns pre) ∧
      (s.shared.count_ ≤ 0 → (∀ t, ¬InCountDown s t) → ∀ t, s.pc t ≠ .asleep) := by
  constructor
  · rintro pre t post rfl
    obtain ⟨pre', o₁, o₂, u, e, v, rfl, hpre, he⟩ := h.split
    have hready := ready_of_returned announces hpre.reachable he (t := t) (by simp)
    have hcount := ready_iff.mp hready
    rw [count_of_run hpre] at hcount
    rw [countDowns, List.countP_append, ← countDowns]
    omega
  · intro hcount hquiet
    exact awake_of_ready announces h.reachable (ready_iff.mpr hcount) hquiet

/-- A thread sleeps through a spurious wakeup and the first of three calls. -/
theorem wait_releases_three : ∃ (obs : List (Obs ℕ)) (s : State CountDownLatch ℕ),
    ((monitor 2).system ℕ).Run obs s ∧ obs = [.updated 1, .updated 2, .updated 3, .returned 0] ∧
      s.shared.count_ = -1 ∧
      (∀ pre t post, obs = pre ++ .returned t :: post → 2 ≤ (countDowns pre : ℤ)) ∧
        (s.shared.count_ ≤ 0 → (∀ t, ¬InCountDown s t) → ∀ t, s.pc t ≠ .asleep) := by
  obtain ⟨obs, s, hexec, hobs, hcount⟩ : ∃ obs s,
      ((monitor 2).system ℕ).exec ((monitor 2).system ℕ).init
        [.wait 0, .move 0, .move 0, .update 1, .move 1, .move 1, .move 1, .move 1, .spurious 0,
          .update 2, .move 0, .move 0, .move 2, .move 2, .move 2, .move 2, .update 3, .move 3,
          .move 3, .move 3, .move 3, .move 0, .move 0, .move 0] = some (s, obs) ∧
        obs = [.updated 1, .updated 2, .updated 3, .returned 0] ∧ s.shared.count_ = -1 :=
    ⟨_, _, rfl, rfl, rfl⟩
  have hrun : ((monitor 2).system ℕ).Run obs s := .of_exec _ hexec
  obtain ⟨hearly, hawake⟩ := wait_releases hrun
  exact ⟨obs, s, hrun, hobs, hcount, hearly, hawake⟩

/-! ### Nobody waits for ever -/

/-- A counter that has come to zero does not go up again. -/
lemma stays : (monitor count).Stays := by
  intro latch latch' hready hupdate
  obtain rfl := countDown_of_update hupdate
  have hle := ready_iff.mp hready
  apply ready_iff.mpr
  simp only [countDown]
  omega

/-- Once the counter has come to zero, the calls of `wait` and `countDown` that are under way take
no more than four steps for each thread, however these are scheduled, and when nobody can go on,
all of them have returned, unless the counter has come to the end of its type. -/
theorem calls_return [Fintype τ] {s' : State CountDownLatch τ} {es : List (Event τ)}
    (h : ((monitor count).system τ).Reachable s) (hcount : s.shared.count_ ≤ 0)
    (hes : ∀ e ∈ es, e.Inner) (hexec : ((monitor count).system τ).exec s es = some (s', obs)) :
    es.length ≤ 4 * Fintype.card τ ∧
      ((∀ t, (monitor count).move s' t = none) →
        (∀ t, s'.pc t = .idle) ∨ s'.shared.count_ ≤ IntType.int.min) := by
  obtain ⟨hlen, hend⟩ := ends_of_ready announces stays h (ready_iff.mpr hcount) hes hexec
  refine ⟨hlen, fun hstuck => ?_⟩
  rcases hend hstuck with hidle | ⟨t, -, hupdate⟩
  · exact .inl hidle
  · right
    simp only [monitor] at hupdate
    split at hupdate
    · cases hupdate
    · omega

/-- Behind the only `countDown` there is a broadcast, and a thread that was woken before it. -/
theorem calls_return_two : ∃ (s s' : State CountDownLatch (Fin 2)) (es : List (Event (Fin 2)))
    (obs : List (Obs (Fin 2))), ((monitor 1).system (Fin 2)).Reachable s ∧ s.pc 0 = .asleep ∧
      ((monitor 1).system (Fin 2)).exec s es = some (s', obs) ∧ es.length ≤ 8 ∧
        ∀ t, s'.pc t = .idle := by
  obtain ⟨s, s', obs₀, obs, hexec₀, hcount, hasleep, hexec, hstuck, hmin⟩ : ∃ s s' obs₀ obs,
      ((monitor 1).system (Fin 2)).exec ((monitor 1).system (Fin 2)).init
        [.wait 0, .move 0, .move 0, .update 1, .move 1, .move 1] = some (s, obs₀) ∧
      s.shared.count_ ≤ 0 ∧ s.pc 0 = .asleep ∧
      ((monitor 1).system (Fin 2)).exec s
        [.spurious 0, .move 1, .move 1, .move 0, .move 0, .move 0] = some (s', obs) ∧
      (∀ t, (monitor 1).move s' t = none) ∧ ¬s'.shared.count_ ≤ IntType.int.min := by
    refine ⟨_, _, _, _, rfl, by decide, rfl, rfl, fun t => ?_, by decide⟩
    obtain rfl | rfl : t = 0 ∨ t = 1 := by omega
    · rfl
    · rfl
  have hr : ((monitor 1).system (Fin 2)).Reachable s := (System.Run.of_exec _ hexec₀).reachable
  obtain ⟨hlen, hend⟩ := calls_return hr hcount (by simp [Event.Inner]) hexec
  exact ⟨s, s', _, obs, hr, hasleep, hexec, hlen, (hend hstuck).resolve_right hmin⟩

end CountDownLatch

end ClwServer
