import ClwServer.Base.AsyncLogging.Conservation

/-!
# The end of the asynchronous log

`~AsyncLogging` clears `running_` without the mutex and joins the backend. The backend tests the
flag at the head of a round only, and does not look at the buffers again behind the loop: what
was appended since its last `swap` is written if and only if the flag is cleared between the
test and the critical section of a round.
-/

namespace ClwServer.AsyncLogging

open Cpp

/-- The bytes in the buffers of the front end. -/
def left (s : State) : List Byte := (s.buffers ++ [s.currentBuffer]).flatMap contents

/-- The bytes handed to `output` that were flushed, and those that were not. -/
def sync (acc : List Byte × List Byte) : Obs → List Byte × List Byte
  | .written data => (acc.1, acc.2 ++ data)
  | .flushed => (acc.1 ++ acc.2, [])
  | _ => acc

def flushed (obs : List Obs) : List Byte := (obs.foldl sync ([], [])).1

def unflushed (obs : List Obs) : List Byte := (obs.foldl sync ([], [])).2

/-- Every appended message was written and flushed, and the buffers hold none. -/
def Complete (obs : List Obs) (s : State) : Prop :=
  flushed obs = (appended obs).flatten ∧ left s = []

/-- The backend is between the test of `running_` and the critical section of a round, or no
byte has been appended since the last one. -/
def InTime (s : State) : Prop := (s.pc = .lock ∨ s.pc = .waiting) ∨ left s = []

/-! ### What is flushed -/

lemma sync_append (obs : List Obs) (a b : List Byte) :
    (obs.foldl sync (a, b)).1 ++ (obs.foldl sync (a, b)).2 = a ++ b ++ (written obs).flatten := by
  induction obs generalizing a b with
  | nil => simp [written]
  | cons o obs ih =>
    rw [List.foldl_cons]
    cases o with
    | written data => simp [sync, ih, written]
    | flushed => simp [sync, ih, written]
    | appended | notice | erased => simpa [sync, written] using ih a b

lemma flushed_append_unflushed (obs : List Obs) :
    flushed obs ++ unflushed obs = (written obs).flatten := by
  simpa [flushed, unflushed] using sync_append obs [] []

/-- `threadFunc` returns right after a flush. -/
lemma unflushed_of_done {obs : List Obs} {s : State} (h : system.Run obs s)
    (hdone : s.pc = .done) : unflushed obs = [] := by
  refine h.invariant (P := fun obs s => s.pc = .done → unflushed obs = []) (fun _ => rfl)
    (fun obs s e t o hr hp he hdone => ?_) hdone
  simp only [unflushed, List.foldl_append] at hp ⊢
  have hm := Move.of_step (inv_of_reachable hr.reachable) he
  cases hm with
  | put | fill | clear => exact hp hdone
  | lastFlush => rfl
  | head hpc => cases hrun : s.running <;> simp [hrun] at hdone
  | start | entry | sleep | swap | drop | write | written | resize | refill1 | refill2 | keep2 | flush =>
    simp at hdone

/-! ### What is left -/

lemma left_swap {s : State} (hpc : s.pc = .lock ∨ s.pc = .waiting) (hi : Inv s) :
    left { swap s with pc := .drop } = [] := by
  obtain ⟨-, hbuffers, hfresh, -⟩ := swap_spec hpc hi
  simp [left, hbuffers, hfresh.contents]

/-- Once the destructor has begun and no message comes, only a swap changes what is left, and no
new round begins. -/
lemma Move.closing {s t : State} {o : List Obs} (hi : Inv s) (hm : Move s t o)
    (hquiet : appended o = []) (hclosing : s.closing = true) (hrunning : s.running = false) :
    (t.closing = true ∧ t.running = false) ∧
      ((s.pc = .lock ∨ s.pc = .waiting) ∧ (t.pc = .waiting ∨ left t = []) ∨
        ¬(s.pc = .lock ∨ s.pc = .waiting) ∧ ¬(t.pc = .lock ∨ t.pc = .waiting) ∧
          left t = left s) := by
  cases hm with
  | put | fill => simp [appended] at hquiet
  | start _ hfalse | clear hfalse => simp [hclosing] at hfalse
  | swap hpc =>
    exact ⟨⟨by simp [hclosing], by simp [hrunning]⟩, .inl ⟨hpc, .inr (left_swap hpc hi)⟩⟩
  | sleep hpc => exact ⟨⟨hclosing, hrunning⟩, .inl ⟨.inl hpc, .inl rfl⟩⟩
  | drop hpc =>
    rcases drop_cases s with ⟨-, heq⟩ | heq <;> rw [heq] <;>
      exact ⟨⟨hclosing, hrunning⟩, .inr ⟨by simp [hpc], by simp, rfl⟩⟩
  | head hpc =>
    exact ⟨⟨hclosing, hrunning⟩, .inr ⟨by simp [hpc], by simp [hrunning], rfl⟩⟩
  | entry hpc | write _ _ hpc _ | written _ hpc _ | resize hpc | refill1 _ _ hpc _
  | refill2 _ _ hpc _ | keep2 hpc _ | flush hpc | lastFlush hpc =>
    exact ⟨⟨hclosing, hrunning⟩, .inr ⟨by simp [hpc], by simp, rfl⟩⟩

/-- From the destructor on, the round that was about to swap leaves nothing behind, and any other
round leaves everything. -/
lemma left_of_steps {s₀ s : State} {obs : List Obs} (hr : system.Reachable s₀)
    (h : system.Steps s₀ obs s) (hquiet : appended obs = []) (hclosing : s₀.closing = true)
    (hrunning : s₀.running = false) :
    (s.closing = true ∧ s.running = false) ∧
      (s₀.pc = .lock ∨ s₀.pc = .waiting → (s.pc = .lock ∨ s.pc = .waiting) ∨ left s = []) ∧
      (¬(s₀.pc = .lock ∨ s₀.pc = .waiting) →
        ¬(s.pc = .lock ∨ s.pc = .waiting) ∧ left s = left s₀) := by
  induction h with
  | refl => exact ⟨⟨hclosing, hrunning⟩, .inl, fun h => ⟨h, rfl⟩⟩
  | tail e h he ih =>
    rw [appended_append, List.append_eq_nil_iff] at hquiet
    obtain ⟨⟨hclosing, hrunning⟩, hswap, hstay⟩ := ih hquiet.1
    obtain ⟨obs₀, hr⟩ := hr
    have hi := inv_of_reachable (hr.trans h).reachable
    obtain ⟨hflags, hmove⟩ := Move.closing hi (.of_step hi he) hquiet.2 hclosing hrunning
    refine ⟨hflags, fun h₀ => ?_, fun h₀ => ?_⟩
    · rcases hmove with ⟨-, hwait | hleft⟩ | ⟨hnot, -, hleft⟩
      · exact .inl (.inr hwait)
      · exact .inr hleft
      · exact .inr (hleft.trans ((hswap h₀).resolve_left hnot))
    · obtain ⟨hnot, hleft⟩ := hstay h₀
      rcases hmove with ⟨hpc, -⟩ | ⟨-, hpc, heq⟩
      · exact absurd hpc hnot
      · exact ⟨hpc, heq.trans hleft⟩

/-! ### What is kept -/

/-- Where no batch was cut and the backend has returned, what was flushed and what is left in the
buffers is all that was appended. -/
lemma flushed_append_left {obs : List Obs} {s : State} (h : system.Run obs s)
    (hdone : s.pc = .done) (herased : erased obs = []) :
    flushed obs ++ left s = (appended obs).flatten := by
  obtain ⟨L, hk⟩ := keeps_of_run h
  have hdropped : L.dropped = [] := by
    have := hk.dropped
    rwa [herased, List.flatten_nil, List.map_nil, List.map_eq_nil_iff] at this
  have hdecided : decided s = [] := by simp only [decided, hdone]
  have hundecided : undecided s = [] := by simp [undecided, hdone]
  have hwritten : flushed obs = (written obs).flatten := by
    rw [← flushed_append_unflushed, unflushed_of_done h hdone, List.append_nil]
  rw [← hk.messages, Ledger.messages_of_dropped_eq_nil hdropped, List.flatten_flatten,
    List.map_append, hk.kept, hk.live, hdecided, hundecided, hwritten]
  simp [left, List.flatMap_def]

/-- Of the runs in which `~AsyncLogging` begins in `s₀`, no message is appended after it has begun
and no batch is cut, exactly those keep all messages in which the destructor comes in time. -/
theorem complete_iff_inTime {obs₀ obs : List Obs} {s₀ s₁ s : State} (h₀ : system.Run obs₀ s₀)
    (hclear : system.step s₀ .clear = some (s₁, [])) (h : system.Steps s₁ obs s)
    (hquiet : appended obs = []) (herased : erased (obs₀ ++ obs) = []) (hdone : s.pc = .done) :
    Complete (obs₀ ++ obs) s ↔ InTime s₀ := by
  have hrun₁ : system.Run (obs₀ ++ []) s₁ := h₀.step hclear
  rw [List.append_nil] at hrun₁
  have hall := flushed_append_left (hrun₁.trans h) hdone herased
  obtain rfl : s₁ = { s₀ with running := false, closing := true } := by
    have hexec := step_eq_some.mp hclear
    simp only [exec] at hexec
    split at hexec
    · cases hexec
      rfl
    · cases hexec
  obtain ⟨-, hswap, hstay⟩ := left_of_steps hrun₁.reachable h hquiet rfl rfl
  have hcomplete : Complete (obs₀ ++ obs) s ↔ left s = [] := by
    refine ⟨And.right, fun hleft => ⟨?_, hleft⟩⟩
    rw [← hall, hleft, List.append_nil]
  rw [hcomplete]
  by_cases hpc : s₀.pc = .lock ∨ s₀.pc = .waiting
  · have hleft : left s = [] := (hswap hpc).resolve_left (by simp [hdone])
    exact ⟨fun _ => .inl hpc, fun _ => hleft⟩
  · have heq : left s = left s₀ := (hstay hpc).2
    rw [heq]
    exact ⟨.inr, fun hin => hin.resolve_left hpc⟩

/-- A destructor that comes while the backend sleeps loses nothing. -/
theorem complete_of_clear_waiting :
    ∃ s₀ s obs₀ obs, s₀.pc = .waiting ∧ left s₀ = [104] ∧ s.pc = .done ∧
      Complete (obs₀ ++ obs) s := by
  obtain ⟨s₀, s₁, s, obs₀, obs, h₀, hclear, h, hquiet, herased, hdone, hpc, hleft⟩ :
      ∃ s₀ s₁ s obs₀ obs,
        system.exec system.init [.start, .backend, .append 1 [104], .backend, .backend] =
          some (s₀, obs₀) ∧
        system.step s₀ .clear = some (s₁, []) ∧
        system.exec s₁ (.wake :: List.replicate 9 .backend) = some (s, obs) ∧
        appended obs = [] ∧ erased (obs₀ ++ obs) = [] ∧ s.pc = .done ∧ s₀.pc = .waiting ∧
        left s₀ = [104] :=
    ⟨_, _, _, _, _, rfl, rfl, rfl, rfl, rfl, rfl, rfl, rfl⟩
  exact ⟨s₀, s, obs₀, obs, hpc, hleft, hdone,
    (complete_iff_inTime (.of_exec _ h₀) hclear (.of_exec _ h) hquiet herased hdone).mpr
      (.inl (.inr hpc))⟩

/-- A message that comes while the backend writes, before a destructor that comes before the
round ends, is neither written nor flushed. -/
theorem append_lost_at_shutdown :
    ∃ s₀ s₁ s obs₀ obs,
      system.exec system.init [.start, .backend, .append 1 [104], .backend, .backend, .wake,
        .append 1 [105]] = some (s₀, obs₀) ∧
      system.step s₀ .clear = some (s₁, []) ∧
      system.exec s₁ (List.replicate 9 .backend) = some (s, obs) ∧
      appended obs = [] ∧ erased (obs₀ ++ obs) = [] ∧ s.pc = .done ∧
      flushed (obs₀ ++ obs) = [104] ∧ left s = [105] ∧ ¬Complete (obs₀ ++ obs) s :=
  ⟨_, _, _, _, _, rfl, rfl, rfl, rfl, rfl, rfl, rfl, rfl, fun h => by cases h.2⟩

end ClwServer.AsyncLogging
