import ClwServer.Core.System

/-!
# Critical sections

Threads share a state behind one lock. What a thread does with the lock is a section, one
statement after the other; what it does without the lock is one step. In between, the other
threads take their steps without the lock. An atomic description makes one step of every section;
it is right as long as a step without the lock could just as well have been taken in front of the
section that was open: then a run, statement by statement, shows what a run of whole sections
shows.
-/

/-- What threads `τ` do with a state `σ`, on events `ε`, with sections at points `μ`. -/
structure Sections (τ σ ε μ φ ω : Type*) where
  init : σ
  /-- The thread that takes the step of an event. -/
  thread : ε → τ
  /-- The thread whose section is at a point. -/
  owner : μ → τ
  /-- The first point of the section of an event, where its thread is about to take the lock. -/
  enter : σ → ε → Option μ
  /-- A statement of a section leads to the next point, or gives the lock back and shows what the
  section did. -/
  statement : μ → σ → Except φ (σ × (μ ⊕ List ω))
  /-- A step without the lock. -/
  free : σ → ε → Option (Except φ (σ × List ω))

namespace Sections

variable {τ σ ε μ φ ω : Type*}

/-- The state, and where the section is that has the lock. -/
structure State (σ μ : Type*) where
  shared : σ
  held : Option μ
  deriving DecidableEq

inductive Move (ε : Type*)
  /-- The thread of an event takes the lock. -/
  | enter (e : ε)
  /-- The thread that has the lock executes a statement. -/
  | statement
  /-- A thread that has not the lock takes a step without it. -/
  | free (e : ε)
  deriving DecidableEq

section Program

variable (P : Sections τ σ ε μ φ ω)

/-- A statement of an open section. -/
def advance (m : μ) (s : σ) : Except φ (State σ μ × List ω) :=
  (P.statement m s).map fun
    | (t, .inl n) => (⟨t, some n⟩, [])
    | (t, .inr o) => (⟨t, none⟩, o)

def call [DecidableEq τ] (s : State σ μ) :
    Move ε → Option (Except φ (State σ μ × List ω))
  | .enter e =>
    match s.held with
    | none => (P.enter s.shared e).map fun m => .ok (⟨s.shared, some m⟩, [])
    | some _ => none
  | .statement => s.held.map fun m => P.advance m s.shared
  | .free e =>
    if s.held.all fun m => P.thread e ≠ P.owner m then
      (P.free s.shared e).map fun r => r.map fun (t, o) => (⟨t, s.held⟩, o)
    else
      none

/-- The system of the single statements. -/
def system [DecidableEq τ] : System (Except φ (State σ μ)) (Move ε) ω :=
  .faulting ⟨P.init, none⟩ P.call

/-- Statements of one section, without a break. -/
inductive Leads (m : μ) (s : σ) : μ → σ → Prop
  | refl : Leads m s m s
  | tail {n k : μ} {t u : σ} (h : Leads m s n t)
      (hstmt : P.statement n t = .ok (u, .inl k)) : Leads m s k u

/-- What the rest of a section does, without a break. -/
inductive Completes : μ → σ → Except φ (σ × List ω) → Prop
  | unlock {m : μ} {s t : σ} {o : List ω} (hstmt : P.statement m s = .ok (t, .inr o)) :
      Completes m s (.ok (t, o))
  | fault {m : μ} {s : σ} {f : φ} (hstmt : P.statement m s = .error f) :
      Completes m s (.error f)
  | next {m n : μ} {s t : σ} {r : Except φ (σ × List ω)}
      (hstmt : P.statement m s = .ok (t, .inl n)) (h : Completes n t r) : Completes m s r

/-- `call` makes one step of every section. -/
def Atomic (call : σ → ε → Option (Except φ (σ × List ω))) : Prop :=
  ∀ s e r, call s e = some r ↔
    P.free s e = some r ∨ ∃ m, P.enter s e = some m ∧ P.Completes m s r

/-- A step without the lock could have been taken in front of the open section. -/
structure Movable : Prop where
  owner : ∀ {m n s t}, P.statement m s = .ok (t, .inl n) → P.owner n = P.owner m
  enter : ∀ {e e' m s t o}, P.enter s e = some m → P.thread e' ≠ P.owner m →
    P.free s e' = some (.ok (t, o)) → P.enter t e = some m
  step : ∀ {e m n s t u o}, P.statement m s = .ok (t, .inl n) → P.thread e ≠ P.owner m →
    P.free t e = some (.ok (u, o)) →
    ∃ v, P.free s e = some (.ok (v, o)) ∧ P.statement m v = .ok (u, .inl n)
  fault : ∀ {e m n s t f}, P.statement m s = .ok (t, .inl n) → P.thread e ≠ P.owner m →
    P.free t e = some (.error f) → P.free s e = some (.error f)

end Program

variable {P : Sections τ σ ε μ φ ω}

/-! ### Sections without a break -/

lemma Leads.completes {m n : μ} {s t : σ} {r : Except φ (σ × List ω)} (h : P.Leads m s n t)
    (hrest : P.Completes n t r) : P.Completes m s r := by
  induction h with
  | refl => exact hrest
  | tail _ hstmt ih => exact ih (.next hstmt hrest)

/-- A section does one thing. -/
lemma Completes.unique {m : μ} {s : σ} {r r' : Except φ (σ × List ω)} (h : P.Completes m s r)
    (h' : P.Completes m s r') : r = r' := by
  induction h with
  | unlock hstmt =>
    cases h' with
    | unlock hstmt' => simp_all
    | fault hstmt' => simp_all
    | next hstmt' _ => simp_all
  | fault hstmt =>
    cases h' with
    | unlock hstmt' => simp_all
    | fault hstmt' => simp_all
    | next hstmt' _ => simp_all
  | next hstmt _ ih =>
    cases h' with
    | unlock hstmt' => simp_all
    | fault hstmt' => simp_all
    | next hstmt' hrest =>
      obtain ⟨rfl, heq⟩ := Prod.ext_iff.mp (Except.ok.inj (hstmt.symm.trans hstmt'))
      obtain rfl := Sum.inl.inj heq
      exact ih hrest

/-- It is enough that every section comes to what `call` says, and that no other event does more
than its step without the lock. -/
lemma Atomic.of_completes {call : σ → ε → Option (Except φ (σ × List ω))}
    (henter : ∀ s e m, P.enter s e = some m →
      P.free s e = none ∧ ∃ r, call s e = some r ∧ P.Completes m s r)
    (hfree : ∀ s e, P.enter s e = none → call s e = P.free s e) : P.Atomic call := by
  intro s e r
  cases hm : P.enter s e with
  | none => simp [hfree s e hm]
  | some m =>
    obtain ⟨hnone, r', hcall, hcompletes⟩ := henter s e m hm
    simp only [hcall, hnone, reduceCtorEq, false_or, Option.some.injEq, exists_eq_left']
    constructor
    · rintro rfl
      exact hcompletes
    · exact hcompletes.unique

lemma Movable.owner_leads (hmove : P.Movable) {m n : μ} {s t : σ} (h : P.Leads m s n t) :
    P.owner n = P.owner m := by
  induction h with
  | refl => rfl
  | tail _ hstmt ih => exact (hmove.owner hstmt).trans ih

/-- A step without the lock moves in front of all that its section has done so far. -/
lemma Leads.move (hmove : P.Movable) {e : ε} {m n : μ} {s t u : σ} {o : List ω}
    (h : P.Leads m s n t) (hthread : P.thread e ≠ P.owner m)
    (he : P.free t e = some (.ok (u, o))) :
    ∃ v, P.free s e = some (.ok (v, o)) ∧ P.Leads m v n u := by
  induction h generalizing u with
  | refl => exact ⟨u, he, .refl⟩
  | tail h hstmt ih =>
    obtain ⟨w, hw, hstmt'⟩ := hmove.step hstmt (by rwa [hmove.owner_leads h]) he
    obtain ⟨v, hv, hleads⟩ := ih hw
    exact ⟨v, hv, hleads.tail hstmt'⟩

lemma Leads.move_fault (hmove : P.Movable) {e : ε} {m n : μ} {s t : σ} {f : φ}
    (h : P.Leads m s n t) (hthread : P.thread e ≠ P.owner m)
    (he : P.free t e = some (.error f)) : P.free s e = some (.error f) := by
  induction h with
  | refl => exact he
  | tail h hstmt ih => exact ih (hmove.fault hstmt (by rwa [hmove.owner_leads h]) he)

/-! ### The single statements show what whole sections show -/

section Refinement

variable [DecidableEq τ] {call : σ → ε → Option (Except φ (σ × List ω))}

/-- The state of whole sections that a state of single statements comes from: the open section is
still to come. -/
def Comes (P : Sections τ σ ε μ φ ω) (a : σ) (s : State σ μ) : Prop :=
  match s.held with
  | none => a = s.shared
  | some n => ∃ e m, P.enter a e = some m ∧ P.Leads m a n s.shared

/-- A step of the single statements that does not fault. -/
lemma call_ok_cases {s t : State σ μ} {mv : Move ε} {o : List ω}
    (h : P.call s mv = some (.ok (t, o))) :
    (∃ e m, s.held = none ∧ P.enter s.shared e = some m ∧ t = ⟨s.shared, some m⟩ ∧ o = []) ∨
    (∃ m n u, s.held = some m ∧ P.statement m s.shared = .ok (u, .inl n) ∧ t = ⟨u, some n⟩ ∧
      o = []) ∨
    (∃ m u, s.held = some m ∧ P.statement m s.shared = .ok (u, .inr o) ∧ t = ⟨u, none⟩) ∨
    (∃ e u, (∀ m, s.held = some m → P.thread e ≠ P.owner m) ∧
      P.free s.shared e = some (.ok (u, o)) ∧ t = ⟨u, s.held⟩) := by
  obtain ⟨s, held⟩ := s
  cases mv with
  | enter e =>
    cases held with
    | some _ => cases h
    | none =>
      obtain ⟨m, hm, heq⟩ := Option.map_eq_some_iff.mp h
      cases heq
      exact .inl ⟨e, m, rfl, hm, rfl, rfl⟩
  | statement =>
    obtain ⟨m, rfl, heq⟩ := Option.map_eq_some_iff.mp h
    simp only [advance] at heq
    rcases hstmt : P.statement m s with f | ⟨u, n | o'⟩ <;> rw [hstmt] at heq <;> cases heq
    · exact .inr (.inl ⟨m, n, u, rfl, hstmt, rfl, rfl⟩)
    · exact .inr (.inr (.inl ⟨m, u, rfl, hstmt, rfl⟩))
  | free e =>
    simp only [call] at h
    split at h
    · rename_i hthread
      obtain ⟨r, hr, heq⟩ := Option.map_eq_some_iff.mp h
      rcases r with f | ⟨u, o'⟩ <;> cases heq
      refine .inr (.inr (.inr ⟨e, u, fun m hm => ?_, hr, rfl⟩))
      subst hm
      simpa using hthread
    · cases h

/-- A step of the single statements that faults. -/
lemma call_error_cases {s : State σ μ} {mv : Move ε} {f : φ}
    (h : P.call s mv = some (.error f)) :
    (∃ m, s.held = some m ∧ P.statement m s.shared = .error f) ∨
    (∃ e, (∀ m, s.held = some m → P.thread e ≠ P.owner m) ∧
      P.free s.shared e = some (.error f)) := by
  obtain ⟨s, held⟩ := s
  cases mv with
  | enter e =>
    cases held with
    | some _ => cases h
    | none =>
      obtain ⟨m, -, heq⟩ := Option.map_eq_some_iff.mp h
      cases heq
  | statement =>
    obtain ⟨m, rfl, heq⟩ := Option.map_eq_some_iff.mp h
    simp only [advance] at heq
    rcases hstmt : P.statement m s with f' | ⟨u, n | o'⟩ <;> rw [hstmt] at heq <;> cases heq
    exact .inl ⟨m, rfl, hstmt⟩
  | free e =>
    simp only [call] at h
    split at h
    · rename_i hthread
      obtain ⟨r, hr, heq⟩ := Option.map_eq_some_iff.mp h
      rcases r with f' | ⟨u, o'⟩ <;> cases heq
      refine .inr ⟨e, fun m hm => ?_, hr⟩
      subst hm
      simpa using hthread
    · cases h

/-- The lock is taken, a statement is executed, or a step is moved in front of the open section:
the whole sections follow, and make theirs as one step when the lock is given back. -/
lemma Comes.step (hmove : P.Movable) (hatomic : P.Atomic call) {a : σ} {s t : State σ μ}
    {mv : Move ε} {o : List ω} (hcomes : P.Comes a s) (h : P.call s mv = some (.ok (t, o))) :
    ∃ b, (System.faulting P.init call).Steps (.ok a) o (.ok b) ∧ P.Comes b t := by
  obtain ⟨s, held⟩ := s
  rcases call_ok_cases h with ⟨e, m, rfl, hm, rfl, rfl⟩ | ⟨m, n, u, rfl, hstmt, rfl, rfl⟩ |
    ⟨m, u, rfl, hstmt, rfl⟩ | ⟨e, u, hthread, hfree, rfl⟩
  · obtain rfl : a = s := hcomes
    exact ⟨a, .refl _, e, m, hm, .refl⟩
  · obtain ⟨e, m₀, hm₀, hleads⟩ := hcomes
    exact ⟨a, .refl _, e, m₀, hm₀, hleads.tail hstmt⟩
  · obtain ⟨e, m₀, hm₀, hleads⟩ := hcomes
    have hcall := (hatomic a e _).mpr (.inr ⟨m₀, hm₀, hleads.completes (.unlock hstmt)⟩)
    exact ⟨u, .single (System.faulting_step_ok.mpr hcall), rfl⟩
  · cases held with
    | none =>
      obtain rfl : a = s := hcomes
      have hcall := (hatomic a e _).mpr (.inl hfree)
      exact ⟨u, .single (System.faulting_step_ok.mpr hcall), rfl⟩
    | some n =>
      obtain ⟨e₀, m₀, hm₀, hleads⟩ := hcomes
      have howner := hthread n rfl
      rw [hmove.owner_leads hleads] at howner
      obtain ⟨v, hv, hleads'⟩ := hleads.move hmove howner hfree
      have hcall := (hatomic a e _).mpr (.inl hv)
      exact ⟨v, .single (System.faulting_step_ok.mpr hcall), e₀, m₀, hmove.enter hm₀ howner hv,
        hleads'⟩

/-- A fault, inside of a section or in front of it, is one of the whole sections. -/
lemma Comes.fault (hmove : P.Movable) (hatomic : P.Atomic call) {a : σ} {s : State σ μ}
    {mv : Move ε} {f : φ} (hcomes : P.Comes a s) (h : P.call s mv = some (.error f)) :
    ∃ e, call a e = some (.error f) := by
  obtain ⟨s, held⟩ := s
  rcases call_error_cases h with ⟨m, rfl, hstmt⟩ | ⟨e, hthread, hfree⟩
  · obtain ⟨e, m₀, hm₀, hleads⟩ := hcomes
    exact ⟨e, (hatomic a e _).mpr (.inr ⟨m₀, hm₀, hleads.completes (.fault hstmt)⟩)⟩
  · cases held with
    | none =>
      obtain rfl : a = s := hcomes
      exact ⟨e, (hatomic a e _).mpr (.inl hfree)⟩
    | some n =>
      obtain ⟨e₀, m₀, hm₀, hleads⟩ := hcomes
      have howner := hthread n rfl
      rw [hmove.owner_leads hleads] at howner
      exact ⟨e, (hatomic a e _).mpr (.inl (hleads.move_fault hmove howner hfree))⟩

/-- A state of single statements comes from one of whole sections, by the same observations. -/
lemma exists_atomic_run (hmove : P.Movable) (hatomic : P.Atomic call) {obs : List ω}
    {s : State σ μ} (h : P.system.Run obs (.ok s)) :
    ∃ a, (System.faulting P.init call).Run obs (.ok a) ∧ P.Comes a s := by
  refine h.ok_invariant
    (P := fun obs s => ∃ a, (System.faulting P.init call).Run obs (.ok a) ∧ P.Comes a s)
    ⟨P.init, .init, rfl⟩ fun obs s mv t o hs he => ?_
  obtain ⟨a, ha, hcomes⟩ := hs
  obtain ⟨b, hb, hcomes'⟩ := hcomes.step hmove hatomic he
  exact ⟨b, ha.trans hb, hcomes'⟩

/-- The single statements lead to what a section does. -/
def Ends (P : Sections τ σ ε μ φ ω) (s : State σ μ) : Except φ (σ × List ω) → Prop
  | .ok (t, o) => P.system.Steps (.ok s) o (.ok ⟨t, none⟩)
  | .error f => P.system.Steps (.ok s) [] (.error f)

lemma Ends.of_steps {s t : State σ μ} {r : Except φ (σ × List ω)}
    (h : P.system.Steps (.ok s) [] (.ok t)) (hends : P.Ends t r) : P.Ends s r := by
  rcases r with f | ⟨u, o⟩
  · exact h.trans hends
  · exact h.trans hends

/-- The statements of a section can be executed one after the other. -/
lemma Completes.ends {m : μ} {s : σ} {r : Except φ (σ × List ω)} (h : P.Completes m s r) :
    P.Ends ⟨s, some m⟩ r := by
  have hone {m s r} (hr : P.advance m s = r) :
      P.call ⟨s, some m⟩ .statement = some r := congrArg some hr
  induction h with
  | unlock hstmt =>
    exact .single (e := .statement)
      (System.faulting_step_ok.mpr (hone (by rw [advance, hstmt]; rfl)))
  | fault hstmt =>
    exact .single (e := .statement)
      (System.faulting_step_error.mpr ⟨hone (by rw [advance, hstmt]; rfl), rfl⟩)
  | next hstmt _ ih =>
    refine ih.of_steps (.single (e := .statement) (System.faulting_step_ok.mpr (hone ?_)))
    rw [advance, hstmt]
    rfl

/-- So is what `call` does in one step. -/
lemma Atomic.ends (hatomic : P.Atomic call) {s : σ} {e : ε} {r : Except φ (σ × List ω)}
    (h : call s e = some r) : P.Ends ⟨s, none⟩ r := by
  rcases (hatomic s e r).mp h with hfree | ⟨m, hm, hcompletes⟩
  · have hcall : P.call ⟨s, none⟩ (.free e) = some (r.map fun (t, o) => (⟨t, none⟩, o)) := by
      simp [Sections.call, hfree]
    rcases r with f | ⟨t, o⟩
    · exact .single (System.faulting_step_error.mpr ⟨hcall, rfl⟩)
    · exact .single (System.faulting_step_ok.mpr hcall)
  · refine hcompletes.ends.of_steps (.single (e := .enter e) (System.faulting_step_ok.mpr ?_))
    simp [Sections.call, hm]

/-- A run of whole sections is one of single statements. -/
lemma run_of_atomic (hatomic : P.Atomic call) {obs : List ω} {r : Except φ σ}
    (h : (System.faulting P.init call).Run obs r) :
    P.system.Run obs (r.map fun s => ⟨s, none⟩) := by
  refine h.invariant (P := fun obs r => P.system.Run obs (r.map fun s => ⟨s, none⟩)) .init
    fun obs r e r' o _ hr he => ?_
  cases r with
  | error f => cases he
  | ok s =>
    cases r' with
    | ok t => exact hr.trans (hatomic.ends (System.faulting_step_ok.mp he))
    | error f =>
      obtain ⟨hcall, rfl⟩ := System.faulting_step_error.mp he
      exact hr.trans (hatomic.ends hcall)

/-- Where no section is open, the runs of the single statements are those of whole sections. -/
theorem run_ok_iff (hmove : P.Movable) (hatomic : P.Atomic call) {obs : List ω} {s : σ} :
    P.system.Run obs (.ok ⟨s, none⟩) ↔ (System.faulting P.init call).Run obs (.ok s) := by
  refine ⟨fun h => ?_, fun h => run_of_atomic hatomic h⟩
  obtain ⟨a, ha, hcomes⟩ := exists_atomic_run hmove hatomic h
  obtain rfl : a = s := hcomes
  exact ha

/-- They end in the same faults. -/
theorem run_error_iff (hmove : P.Movable) (hatomic : P.Atomic call) {obs : List ω} {f : φ} :
    P.system.Run obs (.error f) ↔ (System.faulting P.init call).Run obs (.error f) := by
  refine ⟨fun h => ?_, fun h => run_of_atomic hatomic h⟩
  refine h.invariant (P := fun obs r => r = .error f →
    (System.faulting P.init call).Run obs (.error f)) ?_ ?_ rfl
  · rintro ⟨⟩
  · rintro obs (_ | s) mv r o hr - he rfl
    · cases he
    · obtain ⟨hcall, rfl⟩ := System.faulting_step_error.mp he
      obtain ⟨a, ha, hcomes⟩ := exists_atomic_run hmove hatomic hr
      obtain ⟨e, hfault⟩ := hcomes.fault hmove hatomic hcall
      exact ha.step (System.faulting_step_error.mpr ⟨hfault, rfl⟩)

end Refinement

end Sections
