import ClwServer.Core.Product
import ClwServer.Net.EventLoop.Order

/-!
# A channel and its loop

The event loop leaves open what its users' channels do. Here one channel is looked at together with
the loop: a device has the channel, with what the kernel and the owner of the channel know about
it, and moves with the loop at a poll, at the call of `handleEvent` and at its return, and where
the loop thread runs a functor of the owner. Other channels, functors and threads are as free as
before.
-/

namespace ClwServer.EventLoop

/-- Where the loop thread is with a channel. -/
inductive Phase
  | idle
  /-- The channel is in `ActiveChannels_`, and its turn is still to come. -/
  | listed
  /-- Inside `handleEvent`. -/
  | handling
  deriving DecidableEq

/-- How a step of a device goes with the steps of the loop. -/
inductive Port
  /-- A step of the kernel or of another thread. -/
  | env
  /-- A step of the loop thread in `handleEvent`. -/
  | inside
  /-- A poll, and whether it reports the channel. -/
  | poll (reported : Bool)
  /-- The call of `handleEvent`. -/
  | enter
  /-- The return of `handleEvent`. -/
  | leave
  /-- The functor of the device enters `pendingFunctors`. -/
  | submit
  /-- `doPendingFunctors` calls the functor of the device. -/
  | call
  /-- `runInLoop` calls the functor of the device on the loop thread. -/
  | direct
  deriving DecidableEq

/-- What a step at a port makes of the phase. -/
def Port.Goes : Port → Phase → Phase → Prop
  | .poll reported, p, q => p = .idle ∧ q = if reported then .listed else .idle
  | .enter, p, q => p = .listed ∧ q = .handling
  | .inside, p, q => p = .handling ∧ q = .handling
  | .leave, p, q => p = .handling ∧ q = .idle
  | .env, p, q | .submit, p, q | .call, p, q | .direct, p, q => q = p

/-- A system around a channel. -/
structure Device (τ δ ν : Type) where
  system : System τ δ ν
  phase : τ → Phase
  port : δ → Port
  starts : phase system.init = .idle
  goes : ∀ {t t' : τ} {d : δ} {o : List ν}, system.step t d = some (t', o) →
    (port d).Goes (phase t) (phase t')

/-! ### The place of the loop thread -/

section Placed

variable {F : Type} {c : ℕ} {s s' : State F} {p : Phase}

/-- The loop thread is where the phase of the device says. -/
structure Placed (c : ℕ) (s : State F) (p : Phase) : Prop where
  listed : p = .listed → .user c ∈ active s
  handling : p = .handling → ∃ rest, s.pc = .callback rest

lemma placed_idle (c : ℕ) (s : State F) : Placed c s .idle := ⟨by simp, by simp⟩

lemma Placed.congr (h : Placed c s p) (hpc : s'.pc = s.pc) : Placed c s' p where
  listed := by
    intro hp
    simpa only [active, hpc] using h.listed hp
  handling := by
    intro hp
    rw [hpc]
    exact h.handling hp

/-- Where no channel is listed or called, the device is idle. -/
lemma Placed.eq_idle (h : Placed c s p) (hactive : active s = [])
    (hpc : ∀ rest, s.pc ≠ .callback rest) : p = .idle := by
  cases p with
  | idle => rfl
  | listed => simpa [hactive] using h.listed rfl
  | handling =>
    obtain ⟨rest, hrest⟩ := h.handling rfl
    exact absurd hrest (hpc rest)

/-- Another channel than the device's is called or has its turn. -/
lemma Placed.tail {x : Chan} {rest : List Chan} (h : Placed c s p)
    (hpc : s.pc = .dispatch (x :: rest)) (hx : x ≠ .user c) (hactive : active s' = rest) :
    Placed c s' p where
  listed := by
    intro hp
    have hmem := h.listed hp
    simp only [active, hpc, List.mem_cons] at hmem
    rw [hactive]
    exact hmem.resolve_left (Ne.symm hx)
  handling := by
    intro hp
    obtain ⟨rest', hrest⟩ := h.handling hp
    rw [hpc] at hrest
    cases hrest

end Placed

/-! ### The loop with a device -/

variable {F τ δ ν : Type} [DecidableEq F]

/-- The port of the step that the device `c` makes with an event of the loop, if it makes one. Its
functor is `mine`. -/
def needs (c : ℕ) (mine : Option F) (s : State F) (p : Phase) : Event F → Option Port
  | .poll before after _ => some (.poll (decide (c ∈ before ++ after)))
  | .loop =>
    match s.pc, s.tempFunctors with
    | .dispatch (.user id :: _), _ => if id = c then some .enter else none
    | .functors, f :: _ => if mine = some f then some .call else none
    | _, _ => none
  | .ownReturn => if p = .handling ∧ s.nested = [] then some .leave else none
  | .ownQueue f | .queue _ f => if mine = some f then some .submit else none
  | .ownRun f => if mine = some f then some .direct else none
  | .ownWake | .ownQuit | .quit _ | .wake _ => none

/-- A poll reports the channel `c` once at most. -/
def Once (c : ℕ) : Event F → Prop
  | .poll before after _ => (before ++ after).count c ≤ 1
  | _ => True

instance (c : ℕ) : ∀ e : Event F, Decidable (Once c e)
  | .poll before after _ => inferInstanceAs (Decidable ((before ++ after).count c ≤ 1))
  | .loop | .ownReturn | .ownQueue _ | .queue .. | .ownRun _ | .ownWake | .ownQuit | .quit _
  | .wake _ => inferInstanceAs (Decidable True)

/-- The steps that the loop and a device may make together. -/
def Together (c : ℕ) (mine : Option F) (D : Device τ δ ν) (s : State F) (t : τ) :
    Option (Event F) → Option δ → Prop
  | some e, d => needs c mine s (D.phase t) e = d.map D.port ∧ Once c e
  | none, some d => D.port d = .env ∨ D.port d = .inside ∧ s.nested = [] ∧ s.own = .idle
  | none, none => False

instance (c : ℕ) (mine : Option F) (D : Device τ δ ν) (s : State F) (t : τ) :
    ∀ e d, Decidable (Together c mine D s t e d)
  | some _, _ => inferInstanceAs (Decidable (_ ∧ _))
  | none, some _ => inferInstanceAs (Decidable (_ ∨ _))
  | none, none => inferInstanceAs (Decidable False)

/-- A loop with a device at its channel `c`. -/
def watch (c : ℕ) (mine : Option F) (D : Device τ δ ν) :
    System (State F × τ) (Option (Event F) × Option δ) (Obs F ⊕ ν) :=
  (system F).product D.system (Together c mine D)

variable {c : ℕ} {mine : Option F} {D : Device τ δ ν} {s s' : State F} {t t' : τ}

/-- The loop thread makes a step in `handleEvent`, where no other user code runs. -/
lemma watch_inside {d : δ} {o : List ν} (hd : D.port d = .inside) (hnested : s.nested = [])
    (hown : s.own = .idle) (h : D.system.step t d = some (t', o)) :
    (watch c mine D).step (s, t) (none, some d) = some ((s, t'), o.map .inr) :=
  System.product_step.mpr ⟨Or.inr ⟨hd, hnested, hown⟩, [], o, rfl, h, rfl⟩

/-- A device that is not asked for a step, or moves aside of the loop, keeps its phase. -/
lemma phase_eq {d : Option δ} {o : List ν} {r : Option Port}
    (h : D.system.stepOr t d = some (t', o)) (hd : r = d.map D.port)
    (hr : ∀ p ∈ r, p = .env ∨ p = .submit ∨ p = .call ∨ p = .direct) :
    D.phase t' = D.phase t := by
  subst hd
  cases d with
  | none =>
    cases h
    rfl
  | some d =>
    have hgoes := D.goes h
    rcases hr (D.port d) rfl with heq | heq | heq | heq <;> rwa [heq] at hgoes

/-- The step that the loop asks the device for. -/
lemma goes_of_needs {d : Option δ} {o : List ν} {p : Port}
    (h : D.system.stepOr t d = some (t', o)) (hd : some p = d.map D.port) :
    p.Goes (D.phase t) (D.phase t') := by
  obtain ⟨x, rfl, hx⟩ := Option.map_eq_some_iff.mp hd.symm
  exact hx ▸ D.goes h

lemma Placed.loop {d : Option δ} {o : List (Obs F)} {o' : List ν} (h : Placed c s (D.phase t))
    (hs : EventLoop.loop s = some (s', o)) (ht : D.system.stepOr t d = some (t', o'))
    (hneeds : needs c mine s (D.phase t) .loop = d.map D.port) : Placed c s' (D.phase t') := by
  have hidle : active s = [] → (∀ rest, s.pc ≠ .callback rest) →
      (∀ p ∈ needs c mine s (D.phase t) .loop, p = .call) → Placed c s' (D.phase t') := by
    intro hactive hpc hport
    rw [phase_eq ht hneeds fun p hp => .inr (.inr (.inl (hport p hp))), h.eq_idle hactive hpc]
    exact placed_idle c s'
  simp only [EventLoop.loop] at hs
  cases hpc : s.pc with
  | dispatch rest =>
    rcases rest with _ | ⟨x, rest⟩
    · exact hidle (by simp [active, hpc]) (by simp [hpc]) (by simp [needs, hpc])
    · cases x with
      | wakeup =>
        simp only [hpc] at hs
        cases hs
        rw [phase_eq ht hneeds (by simp [needs, hpc])]
        exact h.tail hpc (by simp) rfl
      | user id =>
        simp only [hpc] at hs
        cases hs
        by_cases hid : id = c
        · -- the call of `handleEvent` of the device
          simp only [needs, hpc, if_pos hid] at hneeds
          obtain ⟨-, hphase⟩ := goes_of_needs ht hneeds
          rw [hphase]
          exact ⟨by simp, fun _ => ⟨rest, rfl⟩⟩
        · rw [phase_eq ht hneeds (by simp [needs, hpc, hid])]
          exact h.tail hpc (by simpa using hid) rfl
  | functors =>
    refine hidle (by simp [active, hpc]) (by simp [hpc]) ?_
    cases htemp : s.tempFunctors with
    | nil => simp [needs, hpc, htemp]
    | cons f fs =>
      by_cases hmine : mine = some f <;> simp [needs, hpc, htemp, hmine]
  | wait | callback | functor | done => simp only [hpc, reduceCtorEq] at hs
  | _ => exact hidle (by simp [active, hpc]) (by simp [hpc]) (by simp [needs, hpc])

lemma Placed.ownReturn {d : Option δ} {o' : List ν} (h : Placed c s (D.phase t))
    (hs : leaveUserCode s = some s') (ht : D.system.stepOr t d = some (t', o'))
    (hneeds : needs c mine s (D.phase t) .ownReturn = d.map D.port) :
    Placed c s' (D.phase t') := by
  by_cases hleave : D.phase t = .handling ∧ s.nested = []
  · simp only [needs, if_pos hleave] at hneeds
    obtain ⟨-, hphase⟩ := goes_of_needs ht hneeds
    rw [hphase]
    exact placed_idle c s'
  · rw [phase_eq ht hneeds (by simp [needs, hleave])]
    simp only [leaveUserCode] at hs
    split at hs
    · split at hs
      · cases hs
        exact h.congr rfl
      · rename_i hnested hpc
        cases hs
        -- it is the callback of another channel
        have hne : D.phase t ≠ .handling := fun hp => hleave ⟨hp, hnested⟩
        refine ⟨fun hp => ?_, fun hp => absurd hp hne⟩
        simpa [active, hpc] using h.listed hp
      · rename_i hpc
        cases hs
        rw [h.eq_idle (by simp [active, hpc]) (by simp [hpc])]
        exact placed_idle c _
      · cases hs
    · cases hs

lemma Placed.step {e : Option (Event F) × Option δ} {o : List (Obs F ⊕ ν)}
    (h : Placed c s (D.phase t))
    (he : (watch c mine D).step (s, t) e = some ((s', t'), o)) : Placed c s' (D.phase t') := by
  obtain ⟨htogether, o₁, o₂, hs, ht, -⟩ := System.product_step.mp he
  obtain ⟨e, d⟩ := e
  simp only at htogether hs ht
  cases e with
  | none =>
    cases hs
    cases d with
    | none => exact htogether.elim
    | some d =>
      have hgoes := D.goes ht
      rcases htogether with henv | ⟨hinside, -⟩
      · rw [henv] at hgoes
        rwa [hgoes]
      · rw [hinside] at hgoes
        rw [hgoes.2]
        exact hgoes.1 ▸ h
  | some e =>
    obtain ⟨hneeds, -⟩ := htogether
    change EventLoop.step s e = some (s', o₁) at hs
    have haside : s'.pc = s.pc → (∀ p ∈ needs c mine s (D.phase t) e,
        p = .env ∨ p = .submit ∨ p = .call ∨ p = .direct) → Placed c s' (D.phase t') := by
      intro hpc hport
      rw [phase_eq ht hneeds hport]
      exact h.congr hpc
    cases e with
    | loop =>
      simp only [EventLoop.step] at hs
      split at hs
      · exact h.loop hs ht hneeds
      · cases hs
    | poll before after scan =>
      simp only [EventLoop.step] at hs
      split at hs
      · cases hs
        obtain ⟨-, hphase⟩ := goes_of_needs ht hneeds
        rw [hphase]
        by_cases hmem : c ∈ before ++ after
        · refine ⟨fun _ => ?_, by simp [hmem]⟩
          simpa [active, reported, or_comm, or_assoc, or_left_comm] using hmem
        · simpa [hmem] using placed_idle c _
      · cases hs
    | ownReturn =>
      obtain ⟨u, hu, heq⟩ := Option.map_eq_some_iff.mp hs
      cases heq
      exact h.ownReturn hu ht hneeds
    | ownQueue f | queue _ f | ownRun f =>
      simp only [EventLoop.step] at hs
      split at hs <;> cases hs
      refine haside rfl ?_
      by_cases hmine : mine = some f <;> simp [needs, hmine]
    | ownWake =>
      simp only [EventLoop.step] at hs
      split at hs <;> cases hs
      refine haside ?_ (by simp [needs])
      cases s.isPendingFunctor <;> rfl
    | ownQuit | quit =>
      simp only [EventLoop.step] at hs
      split at hs <;> cases hs
      exact haside rfl (by simp [needs])
    | wake =>
      simp only [EventLoop.step] at hs
      split at hs <;> cases hs <;> exact haside rfl (by simp [needs])

/-- In every run, the loop thread is where the phase of the device says. -/
lemma placed_of_reachable {p : State F × τ} (h : (watch c mine D).Reachable p) :
    Placed c p.1 (D.phase p.2) := by
  refine h.invariant (P := fun p => Placed c p.1 (D.phase p.2)) ?_
    fun _ _ _ _ _ hp he => hp.step he
  have hstarts : D.phase (watch c mine D).init.2 = .idle := D.starts
  rw [hstarts]
  exact placed_idle c _

/-- While the loop thread is in `epoll_wait`, the device is idle. -/
lemma idle_of_wait {p : State F × τ} (h : (watch c mine D).Reachable p) (hpc : p.1.pc = .wait) :
    D.phase p.2 = .idle :=
  (placed_of_reachable h).eq_idle (by simp [active, hpc]) (by simp [hpc])

/-! ### The functor of the device -/

lemma queueCall_of_needs {p : Phase} {e : Event F} (h : needs c mine s p e = some .submit) :
    ∃ f, mine = some f ∧ queueCall e = some f := by
  cases e with
  | ownQueue f | queue t f =>
    by_cases hmine : mine = some f
    · exact ⟨f, hmine, rfl⟩
    · simp [needs, hmine] at h
  | ownRun f => by_cases hmine : mine = some f <;> simp [needs, hmine] at h
  | ownReturn =>
    simp only [needs] at h
    split at h <;> cases h
  | loop =>
    simp only [needs] at h
    split at h
    · split at h <;> cases h
    · split at h <;> cases h
    · cases h
  | poll | ownWake | ownQuit | quit | wake => simp [needs] at h

/-- A functor that is queued stays so until it is called. -/
lemma Effect.queued {p : Phase} {e : Event F} {o : List (Obs F)} {f : F} (h : Effect s e s' o)
    (hempty : ¬InBatch s → s.tempFunctors = []) (hmine : mine = some f)
    (hneeds : needs c mine s p e ≠ some .call)
    (hf : f ∈ s.pendingFunctors ++ s.tempFunctors) :
    f ∈ s'.pendingFunctors ++ s'.tempFunctors := by
  cases h with
  | push e g t _ _ _ htemp hpending =>
    rw [htemp, hpending]
    simp only [List.mem_append] at hf ⊢
    tauto
  | direct => exact hf
  | swap hpc =>
    rw [hempty (by simp [InBatch, hpc]), List.append_nil] at hf
    exact hf
  | run g gs hpc htemp =>
    have hne : f ≠ g := by
      rintro rfl
      exact hneeds (by simp [needs, hpc, htemp, hmine])
    simpa [htemp, hne] using hf
  | quiet _ _ _ _ _ htemp hpending =>
    rw [htemp, hpending]
    exact hf

/-- The functor of a device that waits for it is in a queue of the loop. -/
lemma queued_of_waiting {waiting : τ → Prop} (hinit : ¬waiting D.system.init)
    (hstep : ∀ t d t' o, D.system.step t d = some (t', o) → waiting t' →
      D.port d = .submit ∨ waiting t ∧ D.port d ≠ .call)
    {p : State F × τ} (h : (watch c mine D).Reachable p) (hp : waiting p.2) :
    ∃ f, mine = some f ∧ f ∈ p.1.pendingFunctors ++ p.1.tempFunctors := by
  revert hp
  obtain ⟨obs, hrun⟩ := h
  refine hrun.invariant (P := fun _ p => waiting p.2 →
    ∃ f, mine = some f ∧ f ∈ p.1.pendingFunctors ++ p.1.tempFunctors)
    (fun hp => absurd hp hinit) ?_
  rintro obs ⟨s, t⟩ ⟨e, d⟩ ⟨s', t'⟩ o hr hi he hw
  obtain ⟨htogether, o₁, o₂, hs, ht, -⟩ := System.product_step.mp he
  cases e with
  | none =>
    cases hs
    cases d with
    | none => exact htogether.elim
    | some d =>
      have hnot : D.port d ≠ .submit := by
        rcases htogether with heq | ⟨heq, -⟩ <;> rw [heq] <;> simp
      exact hi ((hstep _ _ _ _ ht hw).resolve_left hnot).1
  | some e =>
    obtain ⟨hneeds, -⟩ := htogether
    have hrun₁ : (system F).Run (System.lefts obs) s := hr.fst
    have heffect : Effect s e s' o₁ :=
      .of_step (programStep_of_step (inv_of_reachable hrun₁.reachable) hs)
    have hordered := ordered_of_run (run_program hrun₁)
    by_cases hsubmit : needs c mine s (D.phase t) e = some .submit
    · obtain ⟨f, hmine, hcall⟩ := queueCall_of_needs hsubmit
      refine ⟨f, hmine, ?_⟩
      cases heffect with
      | push _ g _ hg _ _ _ hpending =>
        obtain rfl : g = f := Option.some.inj (hg.symm.trans hcall)
        simp [hpending]
      | quiet _ _ _ hnone =>
        rw [hnone] at hcall
        cases hcall
      | direct | swap | run => cases hcall
    · have hwas : waiting t ∧ needs c mine s (D.phase t) e ≠ some .call := by
        change needs c mine s (D.phase t) e = d.map D.port at hneeds
        cases d with
        | none =>
          cases ht
          exact ⟨hw, by simp [hneeds]⟩
        | some d =>
          rw [hneeds] at hsubmit ⊢
          simpa using (hstep _ _ _ _ ht hw).resolve_left (by simpa using hsubmit)
      obtain ⟨f, hmine, hf⟩ := hi hwas.1
      exact ⟨f, hmine, heffect.queued hordered.empty hmine hwas.2 hf⟩

/-- While the loop is blocked in `epoll_wait` and a device waits for its functor, the loop is on
its way to it. -/
lemma served_of_waiting {waiting : τ → Prop} (hinit : ¬waiting D.system.init)
    (hstep : ∀ t d t' o, D.system.step t d = some (t', o) → waiting t' →
      D.port d = .submit ∨ waiting t ∧ D.port d ≠ .call)
    {p : State F × τ} (h : (watch c mine D).Reachable p) (hpc : p.1.pc = .wait)
    (hp : waiting p.2) : ∃ f, mine = some f ∧ f ∈ p.1.pendingFunctors ∧
      ((∃ t, p.1.callers t = .pushed) ∨ p.1.wakeupFd.Undelivered) := by
  obtain ⟨f, hmine, hf⟩ := queued_of_waiting hinit hstep h hp
  obtain ⟨obs, hrun⟩ := h
  have htemp := (ordered_of_run (run_program hrun.fst)).empty (by simp [InBatch, hpc])
  rw [htemp, List.append_nil] at hf
  have hi := inv_of_reachable hrun.fst.reachable
  refine ⟨f, hmine, hf, ?_⟩
  rcases hi.served (List.ne_nil_of_mem hf) with hahead | hown | hcalls
  · simp [SwapAhead, hpc] at hahead
  · have huser := hi.user (.inl (by simp [hown]))
    simp [AtUserCode, hpc] at huser
  · exact hcalls

end ClwServer.EventLoop
