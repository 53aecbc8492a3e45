import ClwServer.Net.Epoll.Basic

/-!
# The limit given to the kernel

An `Epoll` object allocates as many slots as `MAXEVENTS` says at that moment, so its buffer is
large enough for a call as long as nobody has doubled the global since then. Another object that
gets a full batch does just that, and the next call writes past the end of the buffer.
-/

namespace ClwServer.Epoll

open Cpp (Extent)

/-- `MAXEVENTS` was doubled since the object `j` gave its vector a size. -/
def doubledSince (j : ℕ) (obs : List Obs) : Bool :=
  obs.foldl (fun d o => match o with
    | .sized k => if k = j then false else d
    | .doubled _ => true
    | .called _ _ _ => d) false

variable {s t : State} {j k : ℕ} {i : Instance} {obs o : List Obs}

@[simp] lemma doubledSince_append_nil : doubledSince j (obs ++ []) = doubledSince j obs := by
  rw [List.append_nil]

@[simp] lemma doubledSince_sized : doubledSince j (obs ++ [.sized k]) =
    if k = j then false else doubledSince j obs := by
  simp [doubledSince]

@[simp] lemma doubledSince_doubled : doubledSince j (obs ++ [.doubled k]) = true := by
  simp [doubledSince]

@[simp] lemma doubledSince_called {m c : ℕ} :
    doubledSince j (obs ++ [.called k m c]) = doubledSince j obs := by
  simp [doubledSince]

/-! ### The invariant -/

/-- What holds of one object, where `MAXEVENTS` is `m` and `d` says whether it was doubled since
the object sized its vector. -/
structure InstanceOk (m : ℕ) (d : Bool) (i : Instance) : Prop where
  pos : 0 < i.activeEvents.capacity
  /-- The vector has the slots that `MAXEVENTS` asked for. -/
  fresh : d = false → m = i.activeEvents.capacity
  stale : d = true → 2 * i.activeEvents.capacity ≤ m
  /-- The object that is about to resize has doubled the global itself. -/
  resizing : i.pc = .resize → d = true

structure Inv (obs : List Obs) (s : State) : Prop where
  pos : 0 < s.maxEvents
  instances : ∀ j i, s.instances j = some i → InstanceOk s.maxEvents (doubledSince j obs) i

lemma InstanceOk.capacity_le {m : ℕ} {d : Bool} (h : InstanceOk m d i) :
    i.activeEvents.capacity ≤ m := by
  cases d with
  | false => exact Nat.le_of_eq (h.fresh rfl).symm
  | true =>
    have hstale := h.stale rfl
    omega

/-- A doubling by whoever makes every vector stale. -/
lemma InstanceOk.double {m : ℕ} {d : Bool} (h : InstanceOk m d i) :
    InstanceOk (2 * m) true i where
  pos := h.pos
  fresh := by simp
  stale := by
    have hle := h.capacity_le
    omega
  resizing := by simp

/-- Only the program counter moves. -/
lemma InstanceOk.goto {m : ℕ} {d : Bool} {v : Extent} {pc : Pc} (h : InstanceOk m d i)
    (hv : v.capacity = i.activeEvents.capacity) (hpc : pc ≠ .resize) :
    InstanceOk m d ⟨v, pc⟩ where
  pos := hv ▸ h.pos
  fresh := by
    rw [hv]
    exact h.fresh
  stale := by
    rw [hv]
    exact h.stale
  resizing := fun hresize => absurd hresize hpc

lemma InstanceOk.sized {m : ℕ} {v : Extent} (hm : 0 < m) (hv : v.capacity = m) {pc : Pc}
    (hpc : pc ≠ .resize) : InstanceOk m false ⟨v, pc⟩ where
  pos := hv ▸ hm
  fresh := fun _ => hv.symm
  stale := by simp
  resizing := fun hresize => absurd hresize hpc

/-- A vector that is about to be resized gets exactly the slots the global asks for. -/
lemma InstanceOk.resize {m : ℕ} {d : Bool} (h : InstanceOk m d i) (hpc : i.pc = .resize) :
    (i.activeEvents.resize m).capacity = m :=
  Extent.capacity_resize_of_double_le h.pos (h.stale (h.resizing hpc))

/-- One object changes, and the others are as they were before. -/
lemma Inv.set {i' : Option Instance} (h : Inv obs s)
    (hold : ∀ k, k ≠ j → doubledSince k (obs ++ o) = doubledSince k obs)
    (hnew : ∀ i, i' = some i → InstanceOk s.maxEvents (doubledSince j (obs ++ o)) i) :
    Inv (obs ++ o) (setInstance s j i') where
  pos := h.pos
  instances := by
    intro k i hi
    by_cases hkj : k = j
    · subst hkj
      exact hnew i (by simpa [setInstance] using hi)
    · rw [hold k hkj]
      exact h.instances k i (by simpa [setInstance, hkj] using hi)

lemma Inv.next (h : Inv obs s) (hi : s.instances j = some i) (hn : next s j i = some (t, o)) :
    Inv (obs ++ o) t := by
  have hok := h.instances j i hi
  obtain ⟨v, pc⟩ := i
  cases pc with
  | idle | waiting => cases hn
  | compare n =>
    cases hn
    refine h.set (by simp) ?_
    rintro _ ⟨⟩
    rw [doubledSince_append_nil]
    refine hok.goto rfl ?_
    split <;> simp
  | double =>
    simp only [Epoll.next] at hn
    split at hn <;> cases hn
    constructor
    · have hpos := h.pos
      show 0 < 2 * s.maxEvents
      omega
    · intro k i hik
      rw [doubledSince_doubled]
      by_cases hkj : k = j
      · subst hkj
        obtain rfl : _ = i := by simpa [setInstance] using hik
        exact ⟨hok.pos, by simp, hok.double.stale, by simp⟩
      · exact (h.instances k i (by simpa [setInstance, hkj] using hik)).double
  | resize =>
    cases hn
    refine h.set (by simp +contextual [eq_comm]) ?_
    rintro _ ⟨⟩
    rw [doubledSince_sized, if_pos rfl]
    exact .sized h.pos (hok.resize rfl) (by simp)
  | clear =>
    cases hn
    refine h.set (by simp) ?_
    rintro _ ⟨⟩
    rw [doubledSince_append_nil]
    exact hok.goto rfl (by simp)

lemma Inv.step {e : Event} (h : Inv obs s) (he : system.step s e = some (t, o)) :
    Inv (obs ++ o) t := by
  change Epoll.step s e = some (t, o) at he
  cases e with
  | create j =>
    simp only [Epoll.step] at he
    split at he <;> cases he
    refine h.set (by simp +contextual [eq_comm]) ?_
    rintro _ ⟨⟩
    rw [doubledSince_sized, if_pos rfl]
    exact .sized h.pos rfl (by simp)
  | destroy j =>
    simp only [Epoll.step] at he
    split at he <;> cases he
    exact h.set (by simp) (by simp)
  | call j =>
    simp only [Epoll.step] at he
    split at he <;> cases he
    rename_i v hi
    refine h.set (by simp) ?_
    rintro _ ⟨⟩
    rw [doubledSince_called]
    exact (h.instances j _ hi).goto rfl (by simp)
  | ret j n =>
    simp only [Epoll.step] at he
    split at he
    · rename_i v m hi
      split at he <;> cases he
      refine h.set (by simp) ?_
      rintro _ ⟨⟩
      rw [doubledSince_append_nil]
      refine (h.instances j _ hi).goto rfl ?_
      simp only [afterReturn]
      split <;> simp
    · cases he
  | next j =>
    obtain ⟨i, hi, hn⟩ := Option.bind_eq_some_iff.mp he
    exact h.next hi hn

lemma inv_of_run (h : system.Run obs s) : Inv obs s :=
  h.invariant ⟨by decide, by simp [system, init]⟩ fun _ _ _ _ _ _ hi he => hi.step he

/-! ### The calls of a run -/

/-- A step that shows a call is that call. -/
lemma step_called {e : Event} {m c : ℕ} {o₁ o₂ : List Obs}
    (he : system.step s e = some (t, o₁ ++ .called j m c :: o₂)) :
    o₁ = [] ∧ ∃ v, s.instances j = some ⟨v, .idle⟩ ∧ m = s.maxEvents ∧ c = v.capacity := by
  change Epoll.step s e = some (t, o₁ ++ .called j m c :: o₂) at he
  generalize ho : o₁ ++ .called j m c :: o₂ = o at he
  cases e with
  | call k =>
    simp only [Epoll.step] at he
    split at he <;> cases he
    rename_i v hv
    cases o₁ with
    | nil =>
      obtain ⟨⟨⟩, -⟩ := List.cons.inj ho
      exact ⟨rfl, v, hv, rfl, rfl⟩
    | cons => simp at ho
  | create | destroy =>
    simp only [Epoll.step] at he
    split at he <;> cases he
    simp [List.append_eq_singleton_iff] at ho
  | ret =>
    simp only [Epoll.step] at he
    split at he
    · split at he <;> cases he
      simp at ho
    · cases he
  | next =>
    obtain ⟨⟨v, pc⟩, hi, hn⟩ := Option.bind_eq_some_iff.mp he
    cases pc with
    | idle | waiting => cases hn
    | compare | clear =>
      cases hn
      simp at ho
    | resize =>
      cases hn
      simp [List.append_eq_singleton_iff] at ho
    | double =>
      simp only [Epoll.next] at hn
      split at hn <;> cases hn
      simp [List.append_eq_singleton_iff] at ho

/-- At each call of `::epoll_wait` in each run, the limit fits the buffer if and only if
`MAXEVENTS` was not doubled since the object gave its vector a size. -/
theorem call_fits_iff {m c : ℕ} {pre post : List Obs}
    (h : system.Run (pre ++ .called j m c :: post) s) : m ≤ c ↔ doubledSince j pre = false := by
  obtain ⟨pre', o₁, o₂, u, e, v, hpre, hrun, he⟩ := h.split
  obtain ⟨rfl, w, hw, rfl, rfl⟩ := step_called he
  obtain rfl : pre = pre' := by simpa using hpre
  have hok := (inv_of_run hrun).instances j _ hw
  cases hd : doubledSince j pre with
  | false =>
    have hfresh := hok.fresh hd
    simp only [hfresh, le_refl]
  | true =>
    have hpos := hok.pos
    have hstale := hok.stale hd
    simp only [reduceCtorEq, iff_false, not_le]
    simp only at hpos hstale
    omega

/-- A lone object that got a full batch has room for the next one. -/
theorem call_fits_iff_alone : (2048 ≤ 2048 ↔ doubledSince 0
    [.sized 0, .called 0 1024 1024, .doubled 0, .sized 0] = false) ∧
      doubledSince 0 [.sized 0, .called 0 1024 1024, .doubled 0, .sized 0] = false := by
  obtain ⟨s, hexec⟩ : ∃ s, system.exec init
      [.create 0, .call 0, .ret 0 1024, .next 0, .next 0, .next 0, .next 0, .call 0] =
        some (s, [.sized 0, .called 0 1024 1024, .doubled 0, .sized 0] ++
          .called 0 2048 2048 :: []) := ⟨_, rfl⟩
  exact ⟨call_fits_iff (.of_exec _ hexec), rfl⟩

/-- One of two loops gets a full batch, and the other one lets the kernel write 2048 events into
its 1024 slots. -/
theorem call_exceeds_buffer : ∃ obs s, system.Run obs s ∧ .called 1 2048 1024 ∈ obs := by
  obtain ⟨s, hexec⟩ : ∃ s, system.exec init
      [.create 0, .create 1, .call 0, .ret 0 1024, .next 0, .next 0, .call 1] =
        some (s, [.sized 0, .sized 1, .called 0 1024 1024, .doubled 0, .called 1 2048 1024]) :=
    ⟨_, rfl⟩
  exact ⟨_, s, .of_exec _ hexec, by decide⟩

end ClwServer.Epoll
