import Mathlib.Data.List.Basic

/-!
# Loops over the answers of a system call

A `while (1)` loop that asks for one input in each turn is run on the list of the inputs it gets.
It may leave in any turn, or still be inside when the list is used up. What a turn does before it
asks for its input is done there, too.
-/

/-- What a turn ends in. -/
inductive Turn (σ : Type)
  | again (s : σ)
  | leave (s : σ)
  deriving DecidableEq

/-- How far a piece of code has got with its inputs. -/
inductive Progress (σ ι : Type)
  /-- It waits for the next input. -/
  | inside (s : σ)
  /-- It has returned, and left `rest` alone. -/
  | left (s : σ) (rest : List ι)
  deriving DecidableEq

/-- States `σ`, inputs `ι`, faults `ε`. -/
structure InputLoop (σ ι ε : Type) where
  /-- The part of a turn before the input. -/
  head : σ → Except ε Unit
  body : σ → ι → Except ε (Turn σ)

variable {σ ι ε : Type}

def Turn.state : Turn σ → σ
  | again s | leave s => s

namespace Progress

def state : Progress σ ι → σ
  | inside s | left s _ => s

/-- Go on with `next`, if the code has returned. -/
def andThen (p : Progress σ ι) (next : σ → List ι → Except ε (Progress σ ι)) :
    Except ε (Progress σ ι) :=
  match p with
  | inside s => .ok (inside s)
  | left s rest => next s rest

@[simp] lemma state_inside (s : σ) : (inside s : Progress σ ι).state = s := rfl

@[simp] lemma state_left (s : σ) (rest : List ι) : (left s rest).state = s := rfl

@[simp] lemma andThen_inside (s : σ) (next : σ → List ι → Except ε (Progress σ ι)) :
    (inside s).andThen next = .ok (inside s) := rfl

@[simp] lemma andThen_left (s : σ) (rest : List ι)
    (next : σ → List ι → Except ε (Progress σ ι)) :
    (left s rest).andThen next = next s rest := rfl

end Progress

namespace InputLoop

/-- Run the loop on a list of inputs. -/
def run (L : InputLoop σ ι ε) (s : σ) (is : List ι) : Except ε (Progress σ ι) :=
  match L.head s with
  | .error e => .error e
  | .ok () =>
    match is with
    | [] => .ok (.inside s)
    | i :: is =>
      match L.body s i with
      | .error e => .error e
      | .ok (.leave t) => .ok (.left t is)
      | .ok (.again t) => L.run t is

variable {L : InputLoop σ ι ε} {s t : σ} {i : ι} {is : List ι}

lemma run_nil (hhead : L.head s = .ok ()) : L.run s [] = .ok (.inside s) := by
  rw [run, hhead]

lemma run_again (hhead : L.head s = .ok ()) (hbody : L.body s i = .ok (.again t)) :
    L.run s (i :: is) = L.run t is := by
  rw [run, hhead]
  simp only [hbody]

lemma run_leave (hhead : L.head s = .ok ()) (hbody : L.body s i = .ok (.leave t)) :
    L.run s (i :: is) = .ok (.left t is) := by
  rw [run, hhead]
  simp only [hbody]

lemma run_error {e : ε} (hhead : L.head s = .error e) : L.run s is = .error e := by
  cases is <;> rw [run, hhead]

/-- What a run can come to. -/
inductive Runs (L : InputLoop σ ι ε) : σ → List ι → Except ε (Progress σ ι) → Prop
  | headFault {s : σ} {is : List ι} {e : ε} (hhead : L.head s = .error e) : Runs L s is (.error e)
  | inside {s : σ} (hhead : L.head s = .ok ()) : Runs L s [] (.ok (.inside s))
  | bodyFault {s : σ} {i : ι} {is : List ι} {e : ε} (hhead : L.head s = .ok ())
      (hbody : L.body s i = .error e) : Runs L s (i :: is) (.error e)
  | leave {s t : σ} {i : ι} {is : List ι} (hhead : L.head s = .ok ())
      (hbody : L.body s i = .ok (.leave t)) : Runs L s (i :: is) (.ok (.left t is))
  | again {s t : σ} {i : ι} {is : List ι} {r : Except ε (Progress σ ι)}
      (hhead : L.head s = .ok ()) (hbody : L.body s i = .ok (.again t)) (h : Runs L t is r) :
      Runs L s (i :: is) r

lemma Runs.of_run {r : Except ε (Progress σ ι)} (h : L.run s is = r) : L.Runs s is r := by
  induction is generalizing s with
  | nil =>
    cases hhead : L.head s with
    | error e =>
      rw [run_error hhead] at h
      exact h ▸ .headFault hhead
    | ok =>
      rw [run_nil hhead] at h
      exact h ▸ .inside hhead
  | cons i is ih =>
    cases hhead : L.head s with
    | error e =>
      rw [run_error hhead] at h
      exact h ▸ .headFault hhead
    | ok =>
      cases hbody : L.body s i with
      | error e =>
        simp only [run, hhead, hbody] at h
        exact h ▸ .bodyFault hhead hbody
      | ok turn =>
        cases turn with
        | leave u =>
          rw [run_leave hhead hbody] at h
          exact h ▸ .leave hhead hbody
        | again u =>
          rw [run_again hhead hbody] at h
          exact .again hhead hbody (ih h)

/-- A loop that waits for an input goes on when it gets one. -/
lemma run_append {js : List ι} (h : L.run s is = .ok (.inside t)) :
    L.head t = .ok () ∧ L.run s (is ++ js) = L.run t js := by
  have hr := Runs.of_run h
  generalize heq : Except.ok (Progress.inside t) = r at hr
  clear h
  induction hr with
  | inside hhead =>
    cases heq
    exact ⟨hhead, rfl⟩
  | again hhead hbody _ ih =>
    rw [List.cons_append, run_again hhead hbody]
    exact ih heq
  | headFault | bodyFault | leave => cases heq

/-- A loop that has returned did so in the turn of the last input it took. -/
lemma run_left {rest : List ι} (h : L.run s is = .ok (.left t rest)) :
    ∃ pre i u, is = pre ++ i :: rest ∧ L.run s pre = .ok (.inside u) ∧ L.head u = .ok () ∧
      L.body u i = .ok (.leave t) := by
  have hr := Runs.of_run h
  generalize heq : Except.ok (Progress.left t rest) = r at hr
  clear h
  induction hr with
  | @leave s _ i _ hhead hbody =>
    cases heq
    exact ⟨[], i, s, rfl, run_nil hhead, hhead, hbody⟩
  | @again s _ i _ _ hhead hbody _ ih =>
    obtain ⟨pre, j, u, rfl, hpre, hu, hj⟩ := ih heq
    exact ⟨i :: pre, j, u, rfl, (run_again hhead hbody).trans hpre, hu, hj⟩
  | headFault | bodyFault | inside => cases heq

/-- What every turn keeps, the loop keeps. -/
lemma run_invariant {P : σ → Prop} {r : Progress σ ι} (h : L.run s is = .ok r) (hs : P s)
    (hbody : ∀ s i u, P s → L.body s i = .ok u → P u.state) : P r.state := by
  have hr := Runs.of_run h
  generalize heq : Except.ok r = r' at hr
  clear h
  induction hr with
  | inside =>
    cases heq
    exact hs
  | leave _ hturn =>
    cases heq
    exact hbody _ _ _ hs hturn
  | again _ hturn _ ih => exact ih (hbody _ _ _ hs hturn) heq
  | headFault | bodyFault => cases heq

/-- What the turns that go on keep holds where the loop waits. -/
lemma run_inside_invariant {P : σ → Prop} (h : L.run s is = .ok (.inside t)) (hs : P s)
    (hbody : ∀ s i u, P s → L.body s i = .ok (.again u) → P u) : P t := by
  have hr := Runs.of_run h
  generalize heq : Except.ok (Progress.inside t) = r at hr
  clear h
  induction hr with
  | inside =>
    cases heq
    exact hs
  | again _ hturn _ ih => exact ih (hbody _ _ _ hs hturn) heq
  | headFault | bodyFault | leave => cases heq

/-- Where a loop ends in a fault, a part of a turn does. -/
lemma run_error_invariant {P : σ → Prop} {e : ε} (h : L.run s is = .error e) (hs : P s)
    (hbody : ∀ s i u, P s → L.body s i = .ok u → P u.state) :
    ∃ u, P u ∧ (L.head u = .error e ∨ ∃ i, L.body u i = .error e) := by
  have hr := Runs.of_run h
  generalize heq : Except.error e = r at hr
  clear h
  induction hr with
  | headFault hhead =>
    cases heq
    exact ⟨_, hs, .inl hhead⟩
  | bodyFault _ hturn =>
    cases heq
    exact ⟨_, hs, .inr ⟨_, hturn⟩⟩
  | again _ hturn _ ih => exact ih (hbody _ _ _ hs hturn) heq
  | inside | leave => cases heq

/-- A loop whose turns all go on folds its inputs into the state. -/
lemma run_eq_foldl {f : σ → ι → σ} (hhead : ∀ s, L.head s = .ok ())
    (hbody : ∀ s, ∀ i ∈ is, L.body s i = .ok (.again (f s i))) (s : σ) :
    L.run s is = .ok (.inside (is.foldl f s)) := by
  induction is generalizing s with
  | nil => exact run_nil (hhead s)
  | cons i is ih =>
    rw [run_again (hhead s) (hbody s i (by simp))]
    exact ih (fun s j hj => hbody s j (by simp [hj])) _

end InputLoop
