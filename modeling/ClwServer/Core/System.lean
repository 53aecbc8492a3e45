import Mathlib.Data.List.Induction

/-!
# Transition systems with observations

A system is a guarded, executable step function: `step s e` is `none` when the event `e` is not
enabled in the state `s`, and otherwise the next state with the observations the step makes.
An event resolves the nondeterminism of a step (which thread moves, what its environment
answers); the observations are what a property about a whole run speaks of, so that a state
carries no history of its own.
-/

/-- States `σ`, events `ε`, observations `ω`. -/
structure System (σ ε ω : Type*) where
  init : σ
  step : σ → ε → Option (σ × List ω)

namespace System

variable {σ ε ω : Type*}

/-- `M.Steps s obs t`: some events lead from `s` to `t` and make the observations `obs`. -/
inductive Steps (M : System σ ε ω) : σ → List ω → σ → Prop
  | refl (s : σ) : Steps M s [] s
  | tail {s t u : σ} {obs o : List ω} (e : ε) (h : Steps M s obs t)
      (he : M.step t e = some (u, o)) : Steps M s (obs ++ o) u

/-- The runs of the system, with all they have shown so far. -/
def Run (M : System σ ε ω) (obs : List ω) (s : σ) : Prop := M.Steps M.init obs s

/-- A state some run reaches. -/
def Reachable (M : System σ ε ω) (s : σ) : Prop := ∃ obs, M.Run obs s

/-- Replay a list of events. -/
def exec (M : System σ ε ω) (s : σ) : List ε → Option (σ × List ω)
  | [] => some (s, [])
  | e :: es =>
    match M.step s e with
    | none => none
    | some (t, o) => (M.exec t es).map fun r => (r.1, o ++ r.2)

/-- The system in which a step is taken only where `C` allows it. -/
def restrict (M : System σ ε ω) (C : σ → ε → Prop) [∀ s e, Decidable (C s e)] :
    System σ ε ω where
  init := M.init
  step s e := if C s e then M.step s e else none

variable {M : System σ ε ω}

/-! ### Runs -/

lemma Run.init : M.Run [] M.init := .refl _

lemma Run.step {s t : σ} {obs o : List ω} {e : ε} (h : M.Run obs s)
    (he : M.step s e = some (t, o)) : M.Run (obs ++ o) t := .tail e h he

lemma Run.reachable {s : σ} {obs : List ω} (h : M.Run obs s) : M.Reachable s := ⟨obs, h⟩

lemma Steps.single {s t : σ} {o : List ω} {e : ε} (he : M.step s e = some (t, o)) :
    M.Steps s o t := by
  simpa using Steps.tail e (.refl s) he

lemma Steps.trans {s t u : σ} {obs obs' : List ω} (h : M.Steps s obs t)
    (h' : M.Steps t obs' u) : M.Steps s (obs ++ obs') u := by
  induction h' with
  | refl => simpa using h
  | tail e _ he ih =>
    rw [← List.append_assoc]
    exact ih.tail e he

lemma Run.trans {s t : σ} {obs obs' : List ω} (h : M.Run obs s) (h' : M.Steps s obs' t) :
    M.Run (obs ++ obs') t := Steps.trans h h'

/-! ### Replays -/

lemma exec_append {es₁ es₂ : List ε} {s t : σ} {obs : List ω} :
    M.exec s (es₁ ++ es₂) = some (t, obs) ↔ ∃ u obs₁ obs₂,
      M.exec s es₁ = some (u, obs₁) ∧ M.exec u es₂ = some (t, obs₂) ∧ obs = obs₁ ++ obs₂ := by
  induction es₁ generalizing s t obs with
  | nil => simp [exec, eq_comm]
  | cons e es₁ ih =>
    simp only [List.cons_append, exec]
    cases he : M.step s e with
    | none => simp
    | some r =>
      obtain ⟨u, o⟩ := r
      simp only [Option.map_eq_some_iff, Prod.exists, ih, Prod.mk.injEq]
      constructor
      · rintro ⟨_, _, ⟨v, obs₁, obs₂, hpre, hpost, rfl⟩, rfl, rfl⟩
        exact ⟨v, o ++ obs₁, obs₂, ⟨v, obs₁, hpre, rfl, rfl⟩, hpost,
          (List.append_assoc ..).symm⟩
      · rintro ⟨_, _, obs₂, ⟨v, obs₁, hpre, rfl, rfl⟩, hpost, rfl⟩
        exact ⟨t, obs₁ ++ obs₂, ⟨v, obs₁, obs₂, hpre, hpost, rfl⟩, rfl, (List.append_assoc ..).symm⟩

lemma exec_singleton {e : ε} {s t : σ} {obs : List ω} :
    M.exec s [e] = some (t, obs) ↔ M.step s e = some (t, obs) := by
  simp only [exec]
  cases M.step s e <;> simp [Prod.ext_iff]

lemma exec_cons {e : ε} {es : List ε} {s t : σ} {obs : List ω} :
    M.exec s (e :: es) = some (t, obs) ↔ ∃ u o obs', M.step s e = some (u, o) ∧
      M.exec u es = some (t, obs') ∧ obs = o ++ obs' := by
  have happend : M.exec s ([e] ++ es) = some (t, obs) ↔ _ := exec_append
  simpa only [exec_singleton, List.singleton_append] using happend

/-- What a replay answers is a sequence of steps. -/
lemma Steps.of_exec (es : List ε) {s t : σ} {obs : List ω}
    (h : M.exec s es = some (t, obs)) : M.Steps s obs t := by
  induction es generalizing s obs with
  | nil =>
    cases h
    exact .refl _
  | cons e es ih =>
    obtain ⟨u, o, obs', he, hrest, rfl⟩ := exec_cons.mp h
    exact (Steps.single he).trans (ih hrest)

lemma Run.of_exec (es : List ε) {s : σ} {obs : List ω}
    (h : M.exec M.init es = some (s, obs)) : M.Run obs s := Steps.of_exec es h

/-- Each event of a replay makes a step of it. -/
lemma exec_split {es₁ es₂ : List ε} {e : ε} {s t : σ} {obs : List ω}
    (h : M.exec s (es₁ ++ e :: es₂) = some (t, obs)) : ∃ u v pre o post,
      M.exec s es₁ = some (u, pre) ∧ M.step u e = some (v, o) ∧ obs = pre ++ o ++ post := by
  obtain ⟨u, pre, _, hpre, hrest, rfl⟩ := exec_append.mp h
  obtain ⟨v, o, post, he, -, rfl⟩ := exec_cons.mp hrest
  exact ⟨u, v, pre, o, post, hpre, he, (List.append_assoc ..).symm⟩

/-- What each step shows of its event, a replay shows of its events. -/
lemma exec_filterMap {α : Type*} {p : ω → Option α} {q : ε → Option α}
    (hstep : ∀ s e t o, M.step s e = some (t, o) → o.filterMap p = (q e).toList)
    {es : List ε} {s t : σ} {obs : List ω} (h : M.exec s es = some (t, obs)) :
    obs.filterMap p = es.filterMap q := by
  induction es generalizing s obs with
  | nil =>
    cases h
    rfl
  | cons e es ih =>
    obtain ⟨u, o, obs', he, hrest, rfl⟩ := exec_cons.mp h
    rw [List.filterMap_append, hstep s e u o he, ih hrest]
    cases hq : q e <;> simp [hq]

/-- Each observation of a run was made by one of its steps. -/
lemma Steps.split {s t : σ} {x : ω} {pre post : List ω} (h : M.Steps s (pre ++ x :: post) t) :
    ∃ pre' o₁ o₂ u e v, pre = pre' ++ o₁ ∧ M.Steps s pre' u ∧
      M.step u e = some (v, o₁ ++ x :: o₂) := by
  generalize hobs : pre ++ x :: post = obs at h
  induction h generalizing post with
  | refl => simp at hobs
  | @tail u v obs o e h he ih =>
    rcases List.append_eq_append_iff.mp hobs with ⟨a, rfl, ha⟩ | ⟨a, rfl, rfl⟩
    · cases a with
      | nil =>
        obtain rfl : x :: post = o := ha
        exact ⟨pre, [], post, u, e, v, by simp, by simpa using h, by simpa using he⟩
      | cons y a =>
        obtain ⟨rfl, rfl⟩ := List.cons.inj ha
        exact ih rfl
    · exact ⟨obs, a, post, u, e, v, rfl, h, he⟩

lemma Run.split {s : σ} {x : ω} {pre post : List ω} (h : M.Run (pre ++ x :: post) s) :
    ∃ pre' o₁ o₂ u e v, pre = pre' ++ o₁ ∧ M.Run pre' u ∧
      M.step u e = some (v, o₁ ++ x :: o₂) := Steps.split h

/-! ### Invariants -/

/-- The invariant rule relative to a starting state: `P` may speak of what was observed since. -/
lemma Steps.invariant {P : List ω → σ → Prop} {s₀ s : σ} {obs : List ω} (h : M.Steps s₀ obs s)
    (h₀ : P [] s₀)
    (hstep : ∀ obs s e t o, M.Steps s₀ obs s → P obs s → M.step s e = some (t, o) →
      P (obs ++ o) t) : P obs s := by
  induction h with
  | refl => exact h₀
  | tail e h he ih => exact hstep _ _ e _ _ h ih he

/-- The invariant rule for a property of the state and of the observations. -/
lemma Run.invariant {P : List ω → σ → Prop} {s : σ} {obs : List ω} (h : M.Run obs s)
    (h₀ : P [] M.init)
    (hstep : ∀ obs s e t o, M.Run obs s → P obs s → M.step s e = some (t, o) →
      P (obs ++ o) t) : P obs s :=
  Steps.invariant h h₀ hstep

/-- The invariant rule for a property of the state. -/
lemma Reachable.invariant {P : σ → Prop} {s : σ} (h : M.Reachable s) (h₀ : P M.init)
    (hstep : ∀ s e t o, M.Reachable s → P s → M.step s e = some (t, o) → P t) : P s := by
  obtain ⟨obs, h⟩ := h
  exact h.invariant (P := fun _ s => P s) h₀ fun _ s e t o hr hp he =>
    hstep s e t o hr.reachable hp he

/-- The invariant rule for a replay: `P` may speak of its events, too. -/
lemma exec_invariant {P : List ε → List ω → σ → Prop} {s₀ s : σ} {es : List ε} {obs : List ω}
    (h : M.exec s₀ es = some (s, obs)) (h₀ : P [] [] s₀)
    (hstep : ∀ es obs s e t o, P es obs s → M.step s e = some (t, o) →
      P (es ++ [e]) (obs ++ o) t) : P es obs s := by
  induction es using List.reverseRecOn generalizing s obs with
  | nil =>
    cases h
    exact h₀
  | append_singleton es e ih =>
    obtain ⟨t, obs, o, hes, he, rfl⟩ := exec_append.mp h
    exact hstep es obs t e s o (ih hes) (exec_singleton.mp he)

/-- Replays of at most `bound` events cannot go on for ever: the events of `next` lead to a state
that stops, if they can be taken everywhere else. -/
lemma exists_stop {stop : σ → Prop} {s₀ : σ} {next : ℕ → ε} {bound : ℕ}
    (hbound : ∀ es r, M.exec s₀ es = some r → es.length ≤ bound)
    (hnext : ∀ k s obs, M.exec s₀ ((List.range k).map next) = some (s, obs) → ¬stop s →
      ∃ t o, M.step s (next k) = some (t, o)) :
    ∃ k ≤ bound, ∃ s obs, M.exec s₀ ((List.range k).map next) = some (s, obs) ∧ stop s := by
  by_contra hnever
  have hgoes : ∀ k, ∃ r, M.exec s₀ ((List.range k).map next) = some r := by
    intro k
    induction k with
    | zero => exact ⟨_, rfl⟩
    | succ k ih =>
      obtain ⟨⟨s, obs⟩, hk⟩ := ih
      have hle := hbound _ _ hk
      rw [List.length_map, List.length_range] at hle
      obtain ⟨t, o, he⟩ := hnext k s obs hk fun hstop => hnever ⟨k, hle, s, obs, hk, hstop⟩
      rw [List.range_succ, List.map_append]
      exact ⟨_, exec_append.mpr ⟨s, obs, o, hk, exec_singleton.mpr he, rfl⟩⟩
  obtain ⟨r, hr⟩ := hgoes (bound + 1)
  have hle := hbound _ _ hr
  rw [List.length_map, List.length_range] at hle
  omega

/-! ### Replays, step by step -/

/-- `P` holds of each step of a replay: of the state before it, its event and the state after. -/
def AtSteps (M : System σ ε ω) (P : σ → ε → σ → Prop) (s : σ) (es : List ε) : Prop :=
  ∀ pre e post t obs u o, es = pre ++ e :: post → M.exec s pre = some (t, obs) →
    M.step t e = some (u, o) → P t e u

/-- `Q` holds of each state of a replay. -/
def AtStates (M : System σ ε ω) (Q : σ → Prop) (s : σ) (es : List ε) : Prop :=
  ∀ pre post t obs, es = pre ++ post → M.exec s pre = some (t, obs) → Q t

/-- The invariant rule for the steps of one replay. -/
lemma AtSteps.invariant {P : σ → ε → σ → Prop} {Q : σ → Prop} {s : σ} {es : List ε}
    (h : M.AtSteps P s es) (h₀ : Q s)
    (hstep : ∀ t e u o, Q t → M.step t e = some (u, o) → P t e u → Q u) : M.AtStates Q s es := by
  intro pre
  induction pre using List.reverseRecOn with
  | nil =>
    intro post t obs _ hexec
    cases hexec
    exact h₀
  | append_singleton pre e ih =>
    intro post u obs hes hexec
    rw [List.append_assoc] at hes
    obtain ⟨t, obs₁, o, hpre, hlast, -⟩ := exec_append.mp hexec
    rw [exec_singleton] at hlast
    exact hstep t e u o (ih _ t obs₁ hes hpre) hlast (h pre e post t obs₁ u o hes hpre hlast)

lemma AtSteps.imp {P P' : σ → ε → σ → Prop} {Q : σ → Prop} {s : σ} {es : List ε}
    (h : M.AtSteps P s es) (hstates : M.AtStates Q s es)
    (himp : ∀ t e u o, Q t → M.step t e = some (u, o) → P t e u → P' t e u) :
    M.AtSteps P' s es :=
  fun pre e post t obs u o hes hpre he =>
    himp t e u o (hstates pre _ t obs hes hpre) he (h pre e post t obs u o hes hpre he)

/-! ### Steps that may fault -/

section Faulting

variable {φ : Type*} {init : σ} {call : σ → ε → Option (Except φ (σ × List ω))}

/-- The system of steps that may fault. Behind a fault nothing is enabled. -/
def faulting (init : σ) (call : σ → ε → Option (Except φ (σ × List ω))) :
    System (Except φ σ) ε ω where
  init := .ok init
  step r e := match r with
    | .ok s => (call s e).map fun
      | .ok (t, o) => (.ok t, o)
      | .error f => (.error f, [])
    | .error _ => none

lemma faulting_step_ok {s t : σ} {e : ε} {o : List ω} :
    (faulting init call).step (.ok s) e = some (.ok t, o) ↔ call s e = some (.ok (t, o)) := by
  simp only [faulting]
  rcases call s e with _ | _ | ⟨u, o'⟩ <;> simp

lemma faulting_step_error {s : σ} {e : ε} {f : φ} {o : List ω} :
    (faulting init call).step (.ok s) e = some (.error f, o) ↔
      call s e = some (.error f) ∧ o = [] := by
  simp only [faulting]
  rcases call s e with _ | _ | ⟨u, o'⟩ <;> simp [eq_comm]

/-- A call that cannot fault makes a step that does not. -/
lemma faulting_step_safe {P : σ → List ω → Prop} {s : σ} {e : ε} {r : Except φ σ} {o : List ω}
    (he : (faulting init call).step (.ok s) e = some (r, o))
    (hcall : ∀ c, call s e = some c → ∃ t o, c = .ok (t, o) ∧ P t o) : ∃ t, r = .ok t ∧ P t o := by
  cases r with
  | ok t =>
    obtain ⟨_, _, heq, ht⟩ := hcall _ (faulting_step_ok.mp he)
    cases heq
    exact ⟨t, rfl, ht⟩
  | error f =>
    obtain ⟨_, _, heq, -⟩ := hcall _ (faulting_step_error.mp he).1
    cases heq

/-- The invariant rule for the runs that have not ended in a fault. -/
lemma Run.ok_invariant {P : List ω → σ → Prop} {s : σ} {obs : List ω}
    (h : (faulting init call).Run obs (.ok s)) (h₀ : P [] init)
    (hstep : ∀ obs s e t o, P obs s → call s e = some (.ok (t, o)) → P (obs ++ o) t) :
    P obs s := by
  refine h.invariant (P := fun obs r => ∀ s, r = .ok s → P obs s) ?_ ?_ s rfl
  · rintro _ ⟨⟩
    exact h₀
  · rintro obs (f | s) e r o _ hs he t rfl
    · cases he
    · exact hstep obs s e t o (hs s rfl) (faulting_step_ok.mp he)

/-- Without a fault it is a run of the system that has no faults. -/
lemma Run.of_faulting {s : σ} {obs : List ω} (h : (faulting M.init call).Run obs (.ok s))
    (hcall : ∀ s e t o, call s e = some (.ok (t, o)) → M.step s e = some (t, o)) :
    M.Run obs s :=
  h.ok_invariant Run.init fun _ s e t o hs he => hs.step (hcall s e t o he)

end Faulting

/-! ### Restricted systems -/

section Restrict

variable {C : σ → ε → Prop} [∀ s e, Decidable (C s e)]

lemma restrict_step {s t : σ} {e : ε} {o : List ω} :
    (M.restrict C).step s e = some (t, o) ↔ C s e ∧ M.step s e = some (t, o) := by
  simp [restrict]

/-- Every run of the restricted system is a run of the system. -/
lemma Run.of_restrict {s : σ} {obs : List ω} (h : (M.restrict C).Run obs s) : M.Run obs s :=
  h.invariant Run.init fun _ _ _ _ _ _ hp he => hp.step (restrict_step.mp he).2

end Restrict

end System
