import Mathlib.Algebra.Group.Action.Defs
import Mathlib.Algebra.Order.BigOperators.Group.Finset
import ClwServer.Core.Monitor

/-!
# All calls end

Once the state of a monitor is ready and stays so, the calls under way end by themselves, however
the threads are scheduled: each step uses up one of finitely many, and only an update that cannot
be done stops them.
-/

namespace Monitor

variable {σ τ : Type*} [DecidableEq τ] {M : Monitor σ} {s s' : State σ τ} {t : τ}
  {o obs : List (Obs τ)} {e : Event τ}

/-- The event begins no call. -/
def Event.Inner : Event τ → Prop
  | .move _ | .spurious _ => True
  | .wait _ | .update _ => False

/-- A state that is ready stays ready. -/
def Stays (M : Monitor σ) : Prop :=
  ∀ {s u}, M.ready s = true → M.update s = some u → M.ready u = true

/-- How many steps a thread has left in its call at the most, where the state is ready. -/
def Pc.left : Pc → ℕ
  | .idle => 0
  | .leaving | .releasing => 1
  | .testing | .announcing => 2
  | .entering | .woken | .updating => 3
  | .asleep | .requesting => 4

lemma Pc.left_le (pc : Pc) : pc.left ≤ 4 := by cases pc <;> decide

/-! ### One step -/

/-- One thread has less left, and nobody has more. -/
structure Advances (s s' : State σ τ) : Prop where
  le : ∀ u, (s'.pc u).left ≤ (s.pc u).left
  lt : ∃ u, (s'.pc u).left < (s.pc u).left

lemma advances_of_pc {pc : Pc} (hpc : s'.pc = Function.update s.pc t pc)
    (h : pc.left < (s.pc t).left) : Advances s s' where
  le := by
    intro u
    rw [hpc, Function.update_apply]
    split
    · subst u
      exact Nat.le_of_lt h
    · exact Nat.le_refl _
  lt := ⟨t, by rw [hpc, Function.update_self]; exact h⟩

omit [DecidableEq τ] in
lemma Advances.of_le {u : State σ τ} (h : Advances s u)
    (hle : ∀ v, (s'.pc v).left ≤ (u.pc v).left) : Advances s s' where
  le := fun v => (hle v).trans (h.le v)
  lt := by
    obtain ⟨v, hv⟩ := h.lt
    exact ⟨v, (hle v).trans_lt hv⟩

/-- Where the state is ready, a step within the calls takes a thread forward. -/
lemma advances_of_step (hready : M.ready s.shared = true) (he : e.Inner)
    (h : (M.system τ).step s e = some (s', o)) : Advances s s' := by
  change M.step s e = some (s', o) at h
  cases e with
  | wait | update => exact he.elim
  | spurious t =>
    simp only [step] at h
    split at h <;> cases h
    rename_i hpc
    exact advances_of_pc rfl (by rw [hpc]; decide)
  | move t =>
    simp only [step, Monitor.move] at h
    cases hpc : s.pc t <;> simp only [hpc, reduceCtorEq, Option.some.injEq, Prod.mk.injEq] at h
    case entering | woken | requesting =>
      split at h <;> cases h
      exact advances_of_pc rfl (by rw [hpc]; decide)
    case testing =>
      obtain ⟨rfl, -⟩ := h
      rw [if_pos hready]
      exact advances_of_pc rfl (by rw [hpc]; decide)
    case leaving | releasing =>
      obtain ⟨rfl, -⟩ := h
      exact advances_of_pc rfl (by rw [hpc]; decide)
    case updating =>
      obtain ⟨u, -, heq⟩ := Option.map_eq_some_iff.mp h
      cases heq
      exact advances_of_pc rfl (by rw [hpc]; decide)
    case announcing =>
      obtain ⟨rfl, -⟩ := h
      have hnext : Advances s (setPc s t .releasing) :=
        advances_of_pc rfl (by rw [hpc]; decide)
      apply hnext.of_le
      intro v
      split
      · by_cases hv : v = t
        · simp [setPc, hv]
        · -- a thread that sleeps is woken
          simp only [setPc, broadcast, Function.update_of_ne hv]
          split
          · rename_i hasleep
            rw [hasleep]
            decide
          · exact Nat.le_refl _
      · exact Nat.le_refl _

lemma ready_of_step (hstays : M.Stays) (hready : M.ready s.shared = true)
    (h : (M.system τ).step s e = some (s', o)) : M.ready s'.shared = true := by
  cases Effect.of_step h with
  | quiet heq | returned _ _ heq => rwa [heq]
  | updated _ hupdate => exact hstays hready hupdate

/-- Where the state is ready, a thread can move as long as a call is under way, unless the next
step is an update that cannot be done. -/
lemma idle_of_stuck (hM : M.Announces) (h : (M.system τ).Reachable s)
    (hready : M.ready s.shared = true) (hstuck : ∀ t, M.move s t = none) :
    (∀ t, s.pc t = .idle) ∨ ∃ t, s.pc t = .updating ∧ M.update s.shared = none := by
  have hi := inv_of_reachable hM h
  cases hmutex : s.mutex with
  | some t =>
    -- whoever has the mutex can go on
    right
    have hinside := (hi.mutex t).mp hmutex
    have hmove := hstuck t
    simp only [Monitor.move] at hmove
    cases hpc : s.pc t <;> rw [hpc] at hinside <;>
      first | exact False.elim hinside | simp only [hpc, reduceCtorEq] at hmove
    exact ⟨t, hpc, Option.map_eq_none_iff.mp hmove⟩
  | none =>
    left
    have houtside (t : τ) : ¬(s.pc t).Inside := (hi.mutex t).not.mp (by simp [hmutex])
    have hawake := awake_of_ready hM h hready fun u hu => houtside u (by
      cases hpc : s.pc u <;> rw [hpc] at hu <;> trivial)
    intro t
    have hmove := hstuck t
    have hout := houtside t
    simp only [Monitor.move] at hmove
    cases hpc : s.pc t <;> simp only [hpc, hmutex, if_true, reduceCtorEq] at hmove
    case idle => rfl
    case asleep => exact absurd hpc (hawake t)
    all_goals
      rw [hpc] at hout
      exact absurd trivial hout

/-! ### All steps -/

/-- How many steps all threads have left. -/
def left [Fintype τ] (s : State σ τ) : ℕ := ∑ t, (s.pc t).left

omit [DecidableEq τ] in
lemma left_le_card [Fintype τ] (s : State σ τ) : left s ≤ 4 * Fintype.card τ := by
  have hsum := Finset.sum_le_card_nsmul Finset.univ (fun t => (s.pc t).left) 4
    fun t _ => (s.pc t).left_le
  rw [Finset.card_univ, smul_eq_mul, Nat.mul_comm] at hsum
  exact hsum

omit [DecidableEq τ] in
lemma Advances.left_lt [Fintype τ] (h : Advances s s') : left s' < left s := by
  obtain ⟨u, hu⟩ := h.lt
  exact Finset.sum_lt_sum (fun v _ => h.le v) ⟨u, Finset.mem_univ u, hu⟩

/-- Each step within the calls uses up one of those left. -/
lemma left_of_exec [Fintype τ] (hstays : M.Stays) (h : (M.system τ).Reachable s)
    (hready : M.ready s.shared = true) {es : List (Event τ)} (hes : ∀ e ∈ es, e.Inner)
    (hexec : (M.system τ).exec s es = some (s', obs)) :
    (M.system τ).Reachable s' ∧ M.ready s'.shared = true ∧ es.length + left s' ≤ left s := by
  refine System.exec_invariant (P := fun es _ u => (∀ e ∈ es, e.Inner) →
    (M.system τ).Reachable u ∧ M.ready u.shared = true ∧ es.length + left u ≤ left s) hexec
    (fun _ => ⟨h, hready, by simp⟩) ?_ hes
  intro es obs u e v o hu hstep hes
  obtain ⟨⟨obs', hrun⟩, hready', hleft⟩ := hu fun e' he' => hes e' (List.mem_append_left _ he')
  have hlt := (advances_of_step hready' (hes e (by simp)) hstep).left_lt
  refine ⟨(hrun.step hstep).reachable, ready_of_step hstays hready' hstep, ?_⟩
  rw [List.length_append, List.length_singleton]
  omega

/-- Where the state is ready and stays so, the threads take no more than four steps each within
their calls, and when none can go on, no call is under way, unless an update cannot be done. -/
theorem ends_of_ready [Fintype τ] (hM : M.Announces) (hstays : M.Stays)
    (h : (M.system τ).Reachable s) (hready : M.ready s.shared = true) {es : List (Event τ)}
    (hes : ∀ e ∈ es, e.Inner) (hexec : (M.system τ).exec s es = some (s', obs)) :
    es.length ≤ 4 * Fintype.card τ ∧
      ((∀ t, M.move s' t = none) →
        (∀ t, s'.pc t = .idle) ∨ ∃ t, s'.pc t = .updating ∧ M.update s'.shared = none) := by
  obtain ⟨hr, hready', hleft⟩ := left_of_exec hstays h hready hes hexec
  have hcard := left_le_card s
  exact ⟨by omega, idle_of_stuck hM hr hready'⟩

end Monitor
