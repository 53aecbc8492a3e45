import ClwServer.Core.System
import Mathlib.Data.Sum.Basic

/-!
# Products of systems

Two systems side by side. In a step each of them makes a step of its own or stands still, and a
relation between their states and their events says which steps they may make together. What the
product shows is what the parts show, and a run of it is a run of either.
-/

namespace System

variable {σ τ ε δ ω ν : Type*}

/-- A step, or none. -/
def stepOr (M : System σ ε ω) (s : σ) : Option ε → Option (σ × List ω)
  | none => some (s, [])
  | some e => M.step s e

def product (M : System σ ε ω) (N : System τ δ ν)
    (C : σ → τ → Option ε → Option δ → Prop) [∀ s t e d, Decidable (C s t e d)] :
    System (σ × τ) (Option ε × Option δ) (ω ⊕ ν) where
  init := (M.init, N.init)
  step p e :=
    if C p.1 p.2 e.1 e.2 then
      (M.stepOr p.1 e.1).bind fun r => (N.stepOr p.2 e.2).map fun q =>
        ((r.1, q.1), r.2.map .inl ++ q.2.map .inr)
    else
      none

/-- What the first system has shown. -/
def lefts (obs : List (ω ⊕ ν)) : List ω := obs.filterMap Sum.getLeft?

/-- What the second system has shown. -/
def rights (obs : List (ω ⊕ ν)) : List ν := obs.filterMap Sum.getRight?

@[simp] lemma lefts_append (obs o : List (ω ⊕ ν)) : lefts (obs ++ o) = lefts obs ++ lefts o :=
  List.filterMap_append

@[simp] lemma rights_append (obs o : List (ω ⊕ ν)) :
    rights (obs ++ o) = rights obs ++ rights o :=
  List.filterMap_append

lemma lefts_map (o : List ω) (o' : List ν) :
    lefts (o.map Sum.inl ++ o'.map Sum.inr) = o := by
  have hleft : Sum.getLeft? ∘ (Sum.inl : ω → ω ⊕ ν) = some := rfl
  have hright : Sum.getLeft? ∘ (Sum.inr : ν → ω ⊕ ν) = fun _ => none := rfl
  rw [lefts, List.filterMap_append, List.filterMap_map, List.filterMap_map, hleft, hright]
  simp

lemma rights_map (o : List ω) (o' : List ν) :
    rights (o.map Sum.inl ++ o'.map Sum.inr) = o' := by
  have hleft : Sum.getRight? ∘ (Sum.inl : ω → ω ⊕ ν) = fun _ => none := rfl
  have hright : Sum.getRight? ∘ (Sum.inr : ν → ω ⊕ ν) = some := rfl
  rw [rights, List.filterMap_append, List.filterMap_map, List.filterMap_map, hleft, hright]
  simp

variable {M : System σ ε ω} {N : System τ δ ν} {C : σ → τ → Option ε → Option δ → Prop}
  [∀ s t e d, Decidable (C s t e d)]

lemma product_step {p q : σ × τ} {e : Option ε × Option δ} {o : List (ω ⊕ ν)} :
    (M.product N C).step p e = some (q, o) ↔ C p.1 p.2 e.1 e.2 ∧ ∃ o₁ o₂,
      M.stepOr p.1 e.1 = some (q.1, o₁) ∧ N.stepOr p.2 e.2 = some (q.2, o₂) ∧
        o = o₁.map .inl ++ o₂.map .inr := by
  simp only [product]
  constructor
  · intro h
    split at h
    · rename_i hC
      obtain ⟨r, hr, h⟩ := Option.bind_eq_some_iff.mp h
      obtain ⟨r', hr', heq⟩ := Option.map_eq_some_iff.mp h
      cases heq
      exact ⟨hC, r.2, r'.2, hr, hr', rfl⟩
    · cases h
  · rintro ⟨hC, o₁, o₂, h₁, h₂, rfl⟩
    rw [if_pos hC, h₁, h₂]
    rfl

lemma Steps.stepOr {s t u : σ} {obs o : List ω} {e : Option ε} (h : M.Steps s obs t)
    (he : M.stepOr t e = some (u, o)) : M.Steps s (obs ++ o) u := by
  cases e with
  | none =>
    cases he
    rwa [List.append_nil]
  | some e => exact h.tail e he

lemma Steps.fst {obs : List (ω ⊕ ν)} {p q : σ × τ} (h : (M.product N C).Steps p obs q) :
    M.Steps p.1 (lefts obs) q.1 :=
  h.invariant (P := fun obs q => M.Steps p.1 (lefts obs) q.1) (.refl _)
    fun _ _ _ _ _ _ hq he => by
      obtain ⟨-, o₁, o₂, h₁, -, rfl⟩ := product_step.mp he
      rw [lefts_append, lefts_map]
      exact hq.stepOr h₁

lemma Steps.snd {obs : List (ω ⊕ ν)} {p q : σ × τ} (h : (M.product N C).Steps p obs q) :
    N.Steps p.2 (rights obs) q.2 :=
  h.invariant (P := fun obs q => N.Steps p.2 (rights obs) q.2) (.refl _)
    fun _ _ _ _ _ _ hq he => by
      obtain ⟨-, o₁, o₂, -, h₂, rfl⟩ := product_step.mp he
      rw [rights_append, rights_map]
      exact hq.stepOr h₂

lemma Run.fst {obs : List (ω ⊕ ν)} {p : σ × τ} (h : (M.product N C).Run obs p) :
    M.Run (lefts obs) p.1 :=
  Steps.fst h

lemma Run.snd {obs : List (ω ⊕ ν)} {p : σ × τ} (h : (M.product N C).Run obs p) :
    N.Run (rights obs) p.2 :=
  Steps.snd h

/-! ### Copies of a system -/

section Family

variable {ι : Type*} [DecidableEq ι]

/-- A copy of the system for each `i`. One of them makes a step at a time. -/
def family (ι : Type*) [DecidableEq ι] (M : System σ ε ω) : System (ι → σ) (ι × ε) (ι × ω) where
  init := fun _ => M.init
  step s e := (M.step (s e.1) e.2).map fun r => (Function.update s e.1 r.1, r.2.map (e.1, ·))

/-- What the copy `i` has shown. -/
def shownBy (i : ι) (obs : List (ι × ω)) : List ω :=
  obs.filterMap fun x => if x.1 = i then some x.2 else none

lemma shownBy_append (i : ι) (obs o : List (ι × ω)) :
    shownBy i (obs ++ o) = shownBy i obs ++ shownBy i o :=
  List.filterMap_append

lemma shownBy_map (i j : ι) (o : List ω) :
    shownBy i (o.map (j, ·)) = if j = i then o else [] := by
  rw [shownBy, List.filterMap_map]
  split
  · rename_i hij
    have hsome : (fun x : ι × ω => if x.1 = i then some x.2 else none) ∘ (j, ·) = some :=
      funext fun _ => if_pos hij
    rw [hsome, List.filterMap_some]
  · rename_i hij
    simp [hij]

lemma family_step {s t : ι → σ} {e : ι × ε} {o : List (ι × ω)} :
    (family ι M).step s e = some (t, o) ↔ ∃ u o', M.step (s e.1) e.2 = some (u, o') ∧
      t = Function.update s e.1 u ∧ o = o'.map (e.1, ·) := by
  simp only [family, Option.map_eq_some_iff, Prod.exists, Prod.mk.injEq]
  constructor
  · rintro ⟨u, o', hstep, rfl, rfl⟩
    exact ⟨u, o', hstep, rfl, rfl⟩
  · rintro ⟨u, o', hstep, rfl, rfl⟩
    exact ⟨u, o', hstep, rfl, rfl⟩

/-- A run of all is a run of each. -/
lemma Run.copy {obs : List (ι × ω)} {s : ι → σ} (h : (family ι M).Run obs s) (i : ι) :
    M.Run (shownBy i obs) (s i) := by
  refine h.invariant (P := fun obs s => M.Run (shownBy i obs) (s i)) .init ?_
  rintro obs s ⟨j, e⟩ t o - hs he
  obtain ⟨u, o', hstep, rfl, rfl⟩ := family_step.mp he
  rw [shownBy_append, shownBy_map]
  by_cases hj : j = i
  · subst hj
    rw [if_pos rfl, Function.update_self]
    exact hs.step hstep
  · rw [if_neg hj, List.append_nil, Function.update_of_ne (Ne.symm hj)]
    exact hs

end Family

end System
